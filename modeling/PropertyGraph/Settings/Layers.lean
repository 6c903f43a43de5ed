import PropertyGraph.Settings.Basic
import PropertyGraph.Settings.Content

/-!
# Settings from layers

Settings are read from a tree of contents on top of the usual ones: what a layer does not mention stays as it is, and
what no setting is named for is ignored. Sections and the items in them are visited in the order of their names, so
that of several bad contents the first in that order is reported. A section may also be an array, of which the items
are taken in the order in which they stand here.
-/

namespace PropertyGraph

open Content (Item readText readNat readInt readChoice readSection)

/-- The largest number of retries that settings can ask for. -/
def WriteSettings.mostRetries : Nat := 0xFFFFFFFF

/-- The largest size, limit or wait that settings can ask for. -/
def Settings.mostCount : Nat := 0xFFFFFFFFFFFFFFFF

/-- The items of the store section. -/
def StoreSettings.items : List (Item StoreSettings) :=
  [⟨"table_name", fun path c s => do return { s with tableName := ← readText path c }⟩,
    ⟨"edge_index_name", fun path c s => do return { s with edgeIndexName := ← readText path c }⟩]

/-- The items of the query section. -/
def QuerySettings.items : List (Item QuerySettings) :=
  [⟨"default_limit", fun path c s => do return { s with defaultLimit := ← readNat Settings.mostCount path c }⟩,
    ⟨"singular_limit", fun path c s => do return { s with singularLimit := ← readNat Settings.mostCount path c }⟩,
    ⟨"query_all_limit", fun path c s => do return { s with queryAllLimit := ← readNat Settings.mostCount path c }⟩,
    ⟨"get_batch_size", fun path c s => do return { s with getBatchSize := ← readNat Settings.mostCount path c }⟩]

/-- The items of the write section. -/
def WriteSettings.items : List (Item WriteSettings) :=
  [⟨"batch_size", fun path c s => do return { s with batchSize := ← readNat Settings.mostCount path c }⟩,
    ⟨"max_retries", fun path c s => do return { s with maxRetries := ← readNat mostRetries path c }⟩,
    ⟨"base_backoff_ms", fun path c s => do return { s with baseBackoff := ← readNat Settings.mostCount path c }⟩,
    ⟨"max_backoff_ms", fun path c s => do return { s with maxBackoff := ← readNat Settings.mostCount path c }⟩,
    ⟨"created_by", fun path c s => do return { s with createdBy := ← readText path c }⟩]

/-- The items of the delete section. -/
def DeleteSettings.items : List (Item DeleteSettings) :=
  [⟨"grace_minutes", fun path c s => do return { s with graceMinutes := ← readInt path c }⟩]

/-- The items of the logging section. -/
def LoggingSettings.items : List (Item LoggingSettings) :=
  [⟨"level", fun path c s => do return { s with level := ← readText path c }⟩,
    ⟨"format", fun path c s => do return { s with format := ← readChoice LogFormat.options path c }⟩]

namespace Settings

/-- The sections. -/
def sections : List (Item Settings) :=
  [⟨"store", fun path c s => do return { s with store := ← readSection StoreSettings.items path c s.store }⟩,
    ⟨"query", fun path c s => do return { s with query := ← readSection QuerySettings.items path c s.query }⟩,
    ⟨"write", fun path c s => do return { s with write := ← readSection WriteSettings.items path c s.write }⟩,
    ⟨"delete", fun path c s => do return { s with delete := ← readSection DeleteSettings.items path c s.delete }⟩,
    ⟨"logging", fun path c s => do return { s with logging := ← readSection LoggingSettings.items path c s.logging }⟩]

/-- The settings that a content makes of the usual ones. -/
def ofContent (c : Content) : Except GraphError Settings := readSection sections [] c {}

end Settings

end PropertyGraph
