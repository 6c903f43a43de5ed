import PropertyGraph.Error

/-!
# Responses

Every operation answers with data and messages. The data may be there in part although something went wrong; a response
without messages reports full success.
-/

namespace PropertyGraph

/-- Data, and what went wrong. -/
structure Response (α : Type) where
  data : α
  errors : List String
  deriving DecidableEq, Repr

namespace Response

variable {α : Type}

/-- Data with the messages of errors. -/
def withErrors (data : α) (errors : List GraphError) : Response α := ⟨data, errors.map GraphError.message⟩

/-- Data of full success. -/
def ok (data : α) : Response α := ⟨data, []⟩

/-- Data with one error. -/
def failed (data : α) (error : GraphError) : Response α := withErrors data [error]

/-- Whether nothing went wrong. -/
def isOk (r : Response α) : Bool := r.errors.isEmpty

end Response

/-- What an upsert answers with. -/
structure UpsertResult where
  /-- The first node. -/
  node : Option Fields := none
  /-- The rows that the store did not take. -/
  unprocessed : List Fields := []

/-- What a plural traversal answers with. -/
structure ConnectionPage where
  /-- The neighbors as callers see them. -/
  edges : List Fields := []
  /-- How many there are, in decimal digits. -/
  count : String := "0"
  /-- Where the next page begins. -/
  cursor : Option String := none

/-- What a deletion answers with: how many rows were marked. -/
structure DeleteCount where
  count : Nat := 0
  deriving DecidableEq, Repr

end PropertyGraph
