import PropertyGraph.Proofs.Readable

/-!
# Rows that records were written to

What an operation puts are the attributes of a record that can be stored. A time to live that is set later is written
where the record with that time to live has it (`Record.toAttributes_withTtl`), so that the attributes of such a row
are always, in their order, those of a record (`Fields.IsRowOf`).
-/

namespace PropertyGraph

/-- Writing a name again replaces what was written before. -/
theorem Assoc.insert_insert {α : Type} (name : String) (old new : α) (entries : Assoc α) :
    insert name new (insert name old entries) = insert name new entries := by
  induction entries with
  | nil => simp only [insert, if_true]
  | cons entry rest ih =>
    obtain ⟨other, content⟩ := entry
    by_cases h : other = name
    · rw [insert, if_pos h, insert, if_pos rfl, insert, if_pos h]
    · rw [insert, if_neg h, insert, if_neg h, insert, if_neg h, ih]

namespace Record

/-- The record with a time to live. -/
def withTtl (ttl : Int64) : Record → Record
  | .node n => .node { n with ttl := some ttl }
  | .edge e => .edge { e with ttl := some ttl }

theorem IsStorable.withTtl {r : Record} (h : r.IsStorable) (ttl : Int64) : (r.withTtl ttl).IsStorable := by
  cases r with
  | node n => exact h
  | edge e => exact h

/-- A time to live that is written over attributes replaces the one that is written there. -/
theorem insert_writeTtl (old : Option Int64) (ttl : Int64) (attributes : Fields) :
    Assoc.insert Attribute.ttl (.int ttl) (writeTtl old attributes) = writeTtl (some ttl) attributes := by
  cases old with
  | none => rfl
  | some _ => exact Assoc.insert_insert ..

/-- The attributes of a record with a time to live are those of the record with the time to live written over them. -/
theorem toAttributes_withTtl (ttl : Int64) (r : Record) :
    (r.withTtl ttl).toAttributes = Assoc.insert Attribute.ttl (.int ttl) r.toAttributes := by
  cases r with
  | node n => exact (insert_writeTtl n.ttl ttl _).symm
  | edge e => exact (insert_writeTtl e.ttl ttl _).symm

/-- Records that can be stored have different attributes. -/
theorem IsStorable.eq_of_toAttributes {r other : Record} (hr : r.IsStorable) (ho : other.IsStorable)
    (h : r.toAttributes = other.toAttributes) : r = other := by
  have hread := r.ofAttributes_toAttributes hr
  rw [h, other.ofAttributes_toAttributes ho, Except.ok.injEq] at hread
  exact hread.symm

/-- The time to live of a record is what its attributes have. -/
theorem ttl_toAttributes {r : Record} (h : r.IsStorable) :
    (r.toAttributes.lookup Attribute.ttl).bind Value.int? = r.ttl := by
  have hwritten : ∀ ttl : Option Int64, ((ttlAttribute ttl).lookup Attribute.ttl).bind Value.int? = ttl := by
    intro ttl
    cases ttl <;> rfl
  cases r with
  | node n =>
    rw [toAttributes, n.lookup_toAttributes (Fields.AreFree.areApart h) (by decide)]
    exact hwritten n.ttl
  | edge e =>
    rw [toAttributes, e.toAttributes_eq]
    exact hwritten e.ttl

theorem eq_node_of_key {r : Record} {id : String} (h : r.key = Key.node id) : ∃ n, r = .node n ∧ n.id = id := by
  cases r with
  | node n => exact ⟨n, rfl, congrArg Key.id h⟩
  | edge e => exact absurd (congrArg Key.dataType h) e.sortKey_ne_nodeMarker

/-- Whether a record is one that a schema knows: the name of an edge is that of a side. -/
def IsOf (schema : Schema) : Record → Prop
  | .node _ => True
  | .edge e => ∃ side ∈ schema.sides, e.name = side.edgeName

theorem IsOf.withTtl {schema : Schema} {r : Record} (h : r.IsOf schema) (ttl : Int64) :
    (r.withTtl ttl).IsOf schema := by
  cases r with
  | node n => exact h
  | edge e => exact h

end Record

namespace Fields

variable {q : Record → Prop}

/-- Whether attributes are those of a record that can be stored and has a property. -/
def IsRowOf (q : Record → Prop) (attributes : Fields) : Prop :=
  ∃ r : Record, r.IsStorable ∧ q r ∧ attributes = r.toAttributes

theorem IsRowOf.isRecord {attributes : Fields} (h : attributes.IsRowOf q) : attributes.IsRecord := by
  obtain ⟨r, hr, -, rfl⟩ := h
  exact r.isRecord_toAttributes hr

/-- A row that a record was written to is still such a row with a time to live. -/
theorem isKeptByTtl_isRowOf (hq : ∀ r ttl, q r → q (r.withTtl ttl)) : IsKeptByTtl (IsRowOf q) := by
  rintro row ttl ⟨r, hr, hqr, hattributes⟩
  refine ⟨r.withTtl ttl, hr.withTtl ttl, hq r ttl hqr, ?_⟩
  rw [r.toAttributes_withTtl, ← hattributes]
  rfl

end Fields

namespace Table

/-- Whether a table has the row of a record that can be stored. -/
def Has (t : Table) (r : Record) : Prop := r.IsStorable ∧ ∃ row ∈ t.rows, row.attributes = r.toAttributes

variable {t : Table} {q : Record → Prop} {r : Record}

/-- A table has the record of each of its rows. -/
theorem Every.exists_has (h : t.Every (Fields.IsRowOf q)) {row : Row} (hrow : row ∈ t.rows) :
    ∃ r, t.Has r ∧ row.attributes = r.toAttributes ∧ row.key = r.key := by
  obtain ⟨r, hr, -, hattributes⟩ := h row hrow
  exact ⟨r, ⟨hr, row, hrow, hattributes⟩, hattributes, Row.key_of_attributes hattributes hr⟩

theorem Has.exists_row (h : t.Has r) :
    ∃ row ∈ t.rows, row.key = r.key ∧ Record.ofAttributes row.attributes = .ok r := by
  obtain ⟨hr, row, hrow, hattributes⟩ := h
  exact ⟨row, hrow, Row.key_of_attributes hattributes hr, hattributes ▸ r.ofAttributes_toAttributes hr⟩

end Table

theorem Store.Every.isReadable {s : Store} {q : Record → Prop} (h : s.Every (Fields.IsRowOf q)) : s.IsReadable :=
  fun table row hrow => (h table row hrow).isRecord

end PropertyGraph
