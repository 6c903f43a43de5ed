import PropertyGraph.Store.Basic

/-!
# What answers requests

The operations on a graph ask five kinds of requests and nothing else. They are written for whatever answers these: a
store, or a store that is watched. For the loops over pages to end, a query that continues after a page comes to fewer
rows, and the setting of a time to live brings none back.
-/

namespace PropertyGraph

/-- What a store can be asked. -/
inductive StoreRequest where
  | put (table : String) (attributes : Fields) (condition : PutCondition)
  | batchWrite (table : String) (batch : List Fields)
  | batchGet (table : String) (keys : List Key)
  | query (table : String) (q : Query)
  | updateTtl (table : String) (key : Key) (ttl : Int64)

namespace StoreRequest

/-- What a request is answered with, where it is not refused. -/
@[reducible] def Answer : StoreRequest → Type
  | put .. => Unit
  | batchWrite .. => List Fields
  | batchGet .. => List Fields
  | query .. => Page
  | updateTtl .. => Unit

/-- The answer of a store to a request, and the store after it. -/
def ask : (r : StoreRequest) → Store → Except GraphError r.Answer × Store
  | put table attributes condition, s => s.put table attributes condition
  | batchWrite table batch, s => s.batchWrite table batch
  | batchGet table keys, s => s.batchGet table keys
  | query table q, s => s.query table q
  | updateTtl table key ttl, s => s.updateTtl table key ttl

end StoreRequest

/-- What answers requests, each with what it is after the request. -/
class Storage (σ : Type) where
  ask : σ → (r : StoreRequest) → Except GraphError r.Answer × σ
  /-- How many rows of a table a query would still come to. -/
  remaining : σ → String → Query → Nat
  remaining_updateTtl (s : σ) (table : String) (key : Key) (ttl : Int64) (q : Query) :
    remaining (ask s (.updateTtl table key ttl)).2 table q = remaining s table q
  remaining_lt {s : σ} {table : String} {q : Query} {page : Page} {last : StartKey} :
    (ask s (.query table q)).1 = .ok page → page.last = some last →
      remaining (ask s (.query table q)).2 table { q with startAfter := some last } < remaining s table q

namespace Storage

variable {σ : Type} [Storage σ] (s : σ) (table : String)

@[reducible] def put (attributes : Fields) (condition : PutCondition) : Except GraphError Unit × σ :=
  ask s (.put table attributes condition)

@[reducible] def batchWrite (batch : List Fields) : Except GraphError (List Fields) × σ :=
  ask s (.batchWrite table batch)

@[reducible] def batchGet (keys : List Key) : Except GraphError (List Fields) × σ := ask s (.batchGet table keys)

@[reducible] def query (q : Query) : Except GraphError Page × σ := ask s (.query table q)

@[reducible] def updateTtl (key : Key) (ttl : Int64) : Except GraphError Unit × σ := ask s (.updateTtl table key ttl)

end Storage

namespace Store

instance : Storage Store where
  ask s r := r.ask s
  remaining := Store.remaining
  remaining_updateTtl := remaining_updateTtl
  remaining_lt h hl := by
    rw [StoreRequest.ask, remaining_query]
    exact remaining_lt h hl

variable (s : Store) (table : String)

@[simp] theorem storage_put (attributes : Fields) (condition : PutCondition) :
    Storage.put s table attributes condition = s.put table attributes condition := rfl

@[simp] theorem storage_batchWrite (batch : List Fields) :
    Storage.batchWrite s table batch = s.batchWrite table batch := rfl

@[simp] theorem storage_batchGet (keys : List Key) : Storage.batchGet s table keys = s.batchGet table keys := rfl

@[simp] theorem storage_query (q : Query) : Storage.query s table q = s.query table q := rfl

@[simp] theorem storage_updateTtl (key : Key) (ttl : Int64) :
    Storage.updateTtl s table key ttl = s.updateTtl table key ttl := rfl

@[simp] theorem storage_remaining (q : Query) : Storage.remaining s table q = s.remaining table q := rfl

end Store

end PropertyGraph
