import PropertyGraph.Batch.Retry
import PropertyGraph.Error
import PropertyGraph.Store.Basic

/-!
# Settings

What the engine is told once: which table and index it uses, how many rows and keys it asks for at a time, how it
retries, how far back a deletion may reach, and how it logs. Settings are valid when the store and the engine can
honour them; the first rule that is broken is reported.
-/

namespace PropertyGraph

/-- Which table holds the rows, and the index on it. -/
structure StoreSettings where
  tableName : String := "linnet"
  edgeIndexName : String := "edge-dataType"
  deriving DecidableEq, Repr

/-- How many rows and keys are read at a time. -/
structure QuerySettings where
  /-- The page size of a plural traversal. -/
  defaultLimit : Nat := 10
  /-- The page size of a singular traversal. -/
  singularLimit : Nat := 1
  /-- The page size where every page is read. -/
  queryAllLimit : Nat := 1000
  /-- How many keys are looked up in one batch. -/
  getBatchSize : Nat := 25
  deriving DecidableEq, Repr

/-- How records are written. -/
structure WriteSettings where
  /-- How many rows are put in one batch. -/
  batchSize : Nat := 25
  maxRetries : Nat := 5
  /-- The first wait, in milliseconds. -/
  baseBackoff : Nat := 50
  /-- The longest wait, in milliseconds. -/
  maxBackoff : Nat := 2000
  /-- Who is named as the creator of new rows. -/
  createdBy : String := "linnet"
  deriving DecidableEq, Repr

/-- How far back a deletion may reach. -/
structure DeleteSettings where
  graceMinutes : Int64 := 30
  deriving DecidableEq, Repr

/-- How a log is written. -/
inductive LogFormat where
  | pretty | compact | json
  deriving DecidableEq, Repr

/-- What is logged, and how. -/
structure LoggingSettings where
  level : String := "info"
  format : LogFormat := .pretty
  deriving DecidableEq, Repr

/-- What the engine is told once. -/
structure Settings where
  store : StoreSettings := {}
  query : QuerySettings := {}
  write : WriteSettings := {}
  delete : DeleteSettings := {}
  logging : LoggingSettings := {}
  deriving DecidableEq, Repr

/-- The formats of a log by their names. -/
def LogFormat.options : List (String × LogFormat) := [("pretty", .pretty), ("compact", .compact), ("json", .json)]

/-- The name of a format. -/
def LogFormat.name : LogFormat → String
  | .pretty => "pretty"
  | .compact => "compact"
  | .json => "json"

/-- How a write is retried. -/
def WriteSettings.retryPolicy (w : WriteSettings) : RetryPolicy := ⟨w.maxRetries, w.baseBackoff, w.maxBackoff⟩

namespace Settings

/-- A size that must be positive and at most what the store takes. -/
def rangeFault? (name : String) (most value : Nat) : Option SettingsFault :=
  if value = 0 ∨ most < value then some (.outOfRange name most value) else none

/-- A limit that must be positive. -/
def positiveFault? (name : String) (value : Nat) : Option SettingsFault :=
  if value = 0 then some (.notPositive name) else none

/-- A name that must not be empty. -/
def emptyFault? (name value : String) : Option SettingsFault := if value = "" then some (.empty name) else none

/-- The rules that settings may break, in the order in which they are looked at. -/
def faults (s : Settings) : List (Option SettingsFault) :=
  [emptyFault? "store.table_name" s.store.tableName,
    emptyFault? "store.edge_index_name" s.store.edgeIndexName,
    rangeFault? "write.batch_size" Store.mostWrites s.write.batchSize,
    rangeFault? "query.get_batch_size" Store.mostGets s.query.getBatchSize,
    positiveFault? "query.default_limit" s.query.defaultLimit,
    positiveFault? "query.singular_limit" s.query.singularLimit,
    positiveFault? "query.query_all_limit" s.query.queryAllLimit,
    if s.write.maxBackoff < s.write.baseBackoff then some .backoffOrder else none,
    if s.delete.graceMinutes < 0 then some .negativeGrace else none]

/-- Accepts settings that break no rule. -/
def validate (s : Settings) : Except GraphError Unit :=
  match s.faults.findSome? id with
  | some fault => .error (.settings fault)
  | none => .ok ()

end Settings

end PropertyGraph
