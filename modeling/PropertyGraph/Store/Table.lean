import PropertyGraph.Row.Key
import PropertyGraph.Sorted

/-!
# Tables

A row is a group of attributes that carries its own key. A table holds at most one row of a key, and its rows stand in
the order of their keys: by partition, then by data type, both by code points.
-/

namespace PropertyGraph

/-- Attributes that carry a key. -/
structure Row where
  attributes : Fields
  key : Key
  /-- The key is the one that the attributes carry. -/
  carries : attributes.key? = some key

namespace Row

/-- The row of a group of attributes, where they carry a key. -/
def ofAttributes? (attributes : Fields) : Option Row :=
  match h : attributes.key? with
  | some key => some ⟨attributes, key, h⟩
  | none => none

/-- The row with a time to live; its key stays. -/
def withTtl (row : Row) (ttl : Int64) : Row where
  attributes := row.attributes.insert Attribute.ttl (.int ttl)
  key := row.key
  carries := by
    have hid : Attribute.id ≠ Attribute.ttl := by decide
    have htype : Attribute.dataType ≠ Attribute.ttl := by decide
    have h := row.carries
    unfold Fields.key? Fields.string? at h ⊢
    rw [Assoc.lookup_insert_of_ne hid, Assoc.lookup_insert_of_ne htype]
    exact h

theorem string?_withTtl {name : String} (h : name ≠ Attribute.ttl) (row : Row) (ttl : Int64) :
    (row.withTtl ttl).attributes.string? name = row.attributes.string? name := by
  simp only [withTtl, Fields.string?, Assoc.lookup_insert_of_ne h]

end Row

/-- Rows in strictly ascending order of their keys. -/
structure Table where
  rows : List Row
  /-- The keys strictly ascend. -/
  ascending : rows.Pairwise (·.key.position < ·.key.position)

namespace Table

/-- The table without rows. -/
def empty : Table := ⟨[], List.Pairwise.nil⟩

/-- The row of a key. -/
def get? (t : Table) (key : Key) : Option Row := t.rows.find? fun row => row.key == key

/-- How many rows a table has. -/
def size (t : Table) : Nat := t.rows.length

/-- The table with a row; a row of the same key is replaced. -/
def insert (t : Table) (row : Row) : Table :=
  ⟨insertSorted (fun r : Row => r.key.position) row t.rows, SortedAux.pairwise_insertSorted t.ascending⟩

/-- The table in which the row of a key has a time to live. -/
def mark (t : Table) (key : Key) (ttl : Int64) : Table where
  rows := t.rows.map fun row => if row.key = key then row.withTtl ttl else row
  ascending := by
    have hkey : ∀ row : Row, (if row.key = key then row.withTtl ttl else row).key = row.key := by
      intro row
      split <;> rfl
    exact List.pairwise_map.mpr (t.ascending.imp fun {a b} h => by rw [hkey a, hkey b]; exact h)

end Table

end PropertyGraph
