import PropertyGraph.Batch.Chunk
import PropertyGraph.Row.Codec
import PropertyGraph.Store.Storage

/-!
# Looking up many nodes

Nodes are looked up by their ids in chunks. Missing and expired nodes are left out. A chunk that fails takes away only
its own nodes, and a row that is no record is reported by itself.
-/

namespace PropertyGraph

/-- The nodes that were found, and what went wrong. -/
structure Hydrated where
  nodes : List Node
  errors : List GraphError

/-- Nodes and errors of two look-ups. -/
def Hydrated.append (a b : Hydrated) : Hydrated := ⟨a.nodes ++ b.nodes, a.errors ++ b.errors⟩

/-- What one row gives: a node that is live, nothing, or an error. -/
def hydrateRow (now : Int64) (attributes : Fields) : Hydrated :=
  match Record.ofAttributes attributes with
  | .ok (.node n) => if isOver n.ttl now then ⟨[], []⟩ else ⟨[n], []⟩
  | .ok (.edge _) => ⟨[], []⟩
  | .error e => ⟨[], [e]⟩

/-- What rows give, in their order. -/
def hydrateRows (now : Int64) : List Fields → Hydrated
  | [] => ⟨[], []⟩
  | attributes :: rest => (hydrateRow now attributes).append (hydrateRows now rest)

/-- What the answer to one look-up gives. -/
def hydrateAnswer (now : Int64) : Except GraphError (List Fields) → Hydrated
  | .ok rows => hydrateRows now rows
  | .error e => ⟨[], [e]⟩

section requests

variable {σ : Type} [Storage σ]

/-- Looks up chunks of ids one after the other. -/
def hydrateChunks (s : σ) (table : String) (now : Int64) : List (List String) → Hydrated × σ
  | [] => (⟨[], []⟩, s)
  | chunk :: rest =>
    let (answer, s) := Storage.batchGet s table (chunk.map Key.node)
    let (others, s) := hydrateChunks s table now rest
    ((hydrateAnswer now answer).append others, s)

/-- Looks up nodes in chunks of at most so many. -/
def hydrate (s : σ) (table : String) (size : Nat) (now : Int64) (ids : List String) : Hydrated × σ :=
  hydrateChunks s table now (chunks size ids)

end requests

/-- Where an id stands last in a list of ids; an id that is not there stands behind all others. -/
def lastPlace (ids : List String) (id : String) : Nat :=
  match ids.reverse.findIdx? (· == id) with
  | some fromEnd => ids.length - 1 - fromEnd
  | none => ids.length

/-- A list with an element behind all those whose rank is not above its own. -/
def insertByRank {α : Type} (rank : α → Nat) (a : α) : List α → List α
  | [] => [a]
  | b :: rest => if rank a < rank b then a :: b :: rest else b :: insertByRank rank a rest

/-- Nodes in the order of a list of their ids; nodes of one place keep their order. -/
def orderByIds (ids : List String) (nodes : List Node) : List Node :=
  let placed := nodes.map fun n => (lastPlace ids n.id, n)
  (placed.foldl (fun ordered n => insertByRank Prod.fst n ordered) []).map Prod.snd

end PropertyGraph
