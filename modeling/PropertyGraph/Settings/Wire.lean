import PropertyGraph.Json.Structure
import PropertyGraph.Settings.Layers

/-!
# Settings on the wire

Settings and each of their sections are JSON objects, or arrays of their members in order. Every member has a default
and none takes null.
-/

namespace PropertyGraph

/-- A count that settings can ask for. -/
def Settings.count? : Json → Option Nat := Json.nat? mostCount

namespace StoreSettings

/-- The form of the store section. -/
def shape : Json.Shape := ⟨items.map (·.name), 0, []⟩

/-- The store section. -/
def read? (j : Json) : Option StoreSettings := do
  let usual : StoreSettings := {}
  let members ← shape.read? j
  let tableName ← Json.defaulted? usual.tableName Json.string? members "table_name"
  let edgeIndexName ← Json.defaulted? usual.edgeIndexName Json.string? members "edge_index_name"
  return { tableName, edgeIndexName }

/-- The store section as an object. -/
def write (s : StoreSettings) : Json :=
  .object [("table_name", .string s.tableName), ("edge_index_name", .string s.edgeIndexName)]

end StoreSettings

namespace QuerySettings

/-- The form of the query section. -/
def shape : Json.Shape := ⟨items.map (·.name), 0, []⟩

/-- The query section. -/
def read? (j : Json) : Option QuerySettings := do
  let usual : QuerySettings := {}
  let members ← shape.read? j
  let defaultLimit ← Json.defaulted? usual.defaultLimit Settings.count? members "default_limit"
  let singularLimit ← Json.defaulted? usual.singularLimit Settings.count? members "singular_limit"
  let queryAllLimit ← Json.defaulted? usual.queryAllLimit Settings.count? members "query_all_limit"
  let getBatchSize ← Json.defaulted? usual.getBatchSize Settings.count? members "get_batch_size"
  return { defaultLimit, singularLimit, queryAllLimit, getBatchSize }

/-- The query section as an object. -/
def write (s : QuerySettings) : Json :=
  .object [("default_limit", .count s.defaultLimit), ("singular_limit", .count s.singularLimit),
    ("query_all_limit", .count s.queryAllLimit), ("get_batch_size", .count s.getBatchSize)]

end QuerySettings

namespace WriteSettings

/-- The form of the write section. -/
def shape : Json.Shape := ⟨items.map (·.name), 0, []⟩

/-- The write section. -/
def read? (j : Json) : Option WriteSettings := do
  let usual : WriteSettings := {}
  let members ← shape.read? j
  let batchSize ← Json.defaulted? usual.batchSize Settings.count? members "batch_size"
  let maxRetries ← Json.defaulted? usual.maxRetries (Json.nat? mostRetries) members "max_retries"
  let baseBackoff ← Json.defaulted? usual.baseBackoff Settings.count? members "base_backoff_ms"
  let maxBackoff ← Json.defaulted? usual.maxBackoff Settings.count? members "max_backoff_ms"
  let createdBy ← Json.defaulted? usual.createdBy Json.string? members "created_by"
  return { batchSize, maxRetries, baseBackoff, maxBackoff, createdBy }

/-- The write section as an object. -/
def write (s : WriteSettings) : Json :=
  .object [("batch_size", .count s.batchSize), ("max_retries", .count s.maxRetries),
    ("base_backoff_ms", .count s.baseBackoff), ("max_backoff_ms", .count s.maxBackoff),
    ("created_by", .string s.createdBy)]

end WriteSettings

namespace DeleteSettings

/-- The form of the delete section. -/
def shape : Json.Shape := ⟨items.map (·.name), 0, []⟩

/-- The delete section. -/
def read? (j : Json) : Option DeleteSettings := do
  let usual : DeleteSettings := {}
  let members ← shape.read? j
  let graceMinutes ← Json.defaulted? usual.graceMinutes Json.int? members "grace_minutes"
  return { graceMinutes }

/-- The delete section as an object. -/
def write (s : DeleteSettings) : Json := .object [("grace_minutes", .int s.graceMinutes)]

end DeleteSettings

namespace LoggingSettings

/-- The form of the logging section. -/
def shape : Json.Shape := ⟨items.map (·.name), 0, []⟩

/-- The logging section. -/
def read? (j : Json) : Option LoggingSettings := do
  let usual : LoggingSettings := {}
  let members ← shape.read? j
  let level ← Json.defaulted? usual.level Json.string? members "level"
  let format ← Json.defaulted? usual.format (Json.choice? LogFormat.options) members "format"
  return { level, format }

/-- The logging section as an object. -/
def write (s : LoggingSettings) : Json := .object [("level", .string s.level), ("format", .string s.format.name)]

end LoggingSettings

namespace Settings

/-- The form of settings. -/
def shape : Json.Shape :=
  ⟨sections.map (·.name), 0,
    [("store", StoreSettings.shape.form), ("query", QuerySettings.shape.form), ("write", WriteSettings.shape.form),
      ("delete", DeleteSettings.shape.form), ("logging", LoggingSettings.shape.form)]⟩

/-- Settings, which may be invalid. -/
def read? (j : Json) : Option Settings := do
  let members ← shape.read? j
  let store ← Json.defaulted? {} StoreSettings.read? members "store"
  let query ← Json.defaulted? {} QuerySettings.read? members "query"
  let write ← Json.defaulted? {} WriteSettings.read? members "write"
  let delete ← Json.defaulted? {} DeleteSettings.read? members "delete"
  let logging ← Json.defaulted? {} LoggingSettings.read? members "logging"
  return { store, query, write, delete, logging }

/-- Settings as an object. -/
def toJson (s : Settings) : Json :=
  .object [("store", s.store.write), ("query", s.query.write), ("write", s.write.write), ("delete", s.delete.write),
    ("logging", s.logging.write)]

end Settings

end PropertyGraph
