import PropertyGraph.Proofs.Codec
import PropertyGraph.Proofs.EveryRow

/-!
# Readable tables

A table is readable where every row of it stands for a record. A record that can be stored is read back from its row,
and a time to live leaves a row what it was but for its time to live, so that whatever writes no other attributes keeps
a store readable.
-/

namespace PropertyGraph

/-- Whether attributes stand for a record. -/
def Fields.IsRecord (attributes : Fields) : Prop := ∃ record, Record.ofAttributes attributes = .ok record

/-- Whether every row of a table stands for a record. -/
def Table.IsReadable (t : Table) : Prop := ∀ row ∈ t.rows, row.attributes.IsRecord

/-- Whether every table of a store is readable. -/
def Store.IsReadable (s : Store) : Prop := ∀ table, (s.tableOf table).IsReadable

theorem Record.isRecord_toAttributes {r : Record} (h : r.IsStorable) : r.toAttributes.IsRecord :=
  ⟨r, r.ofAttributes_toAttributes h⟩

theorem Row.key_of_attributes {row : Row} {r : Record} (h : row.attributes = r.toAttributes) (hr : r.IsStorable) :
    row.key = r.key := by
  have hcarries := row.carries
  rw [h, r.key?_toAttributes hr] at hcarries
  exact (Option.some.inj hcarries).symm

theorem Store.isReadable_holding (indexName table : String) {records : List Record} (h : ∀ r ∈ records, r.IsStorable) :
    (holding indexName table records).IsReadable :=
      every_holding indexName table fun r hr => r.isRecord_toAttributes (h r hr)

end PropertyGraph
