import PropertyGraph.Engine
import PropertyGraph.Proofs.Paging

/-!
# What holds of every row of a store

A property that holds of the attributes of every row of a store (`Store.Every`) still does after a write of attributes
that have it; and after a deletion, where a time to live leaves a row with the property (`Fields.IsKeptByTtl`).
Requests that meet a fault change no row. Each kind of write has its lemma here, from an insertion into a table up to
the writes that the engine is made of, so that an invariant of the rows is two facts: that what is written has it, and
that a time to live keeps it.
-/

namespace PropertyGraph

/-- Whether a row with a property keeps it when it is given a time to live. -/
def Fields.IsKeptByTtl (p : Fields → Prop) : Prop :=
  ∀ (row : Row) (ttl : Int64), p row.attributes → p (row.withTtl ttl).attributes

/-- Whether the attributes of every row of a table have a property. -/
def Table.Every (t : Table) (p : Fields → Prop) : Prop := ∀ row ∈ t.rows, p row.attributes

/-- Whether the attributes of every row of every table of a store have a property. -/
def Store.Every (s : Store) (p : Fields → Prop) : Prop := ∀ table, (s.tableOf table).Every p

variable {p : Fields → Prop}

/-! ## Tables -/

/-- Rows with the same attributes are the same row. -/
theorem Row.eq_of_attributes {a b : Row} (h : a.attributes = b.attributes) : a = b := by
  obtain ⟨attributes, key, hcarries⟩ := a
  obtain ⟨other, key', hcarries'⟩ := b
  obtain rfl : attributes = other := h
  obtain rfl : key = key' := Option.some.inj (hcarries.symm.trans hcarries')
  rfl

theorem Table.eq_of_rows {t t' : Table} (h : t.rows = t'.rows) : t = t' := by
  obtain ⟨rows, hasc⟩ := t
  obtain ⟨others, hasc'⟩ := t'
  obtain rfl : rows = others := h
  rfl

/-- The row that a table has is found under its key. -/
theorem Table.get?_of_mem {t : Table} {row : Row} (h : row ∈ t.rows) : t.get? row.key = some row := by
  have hsome : (t.get? row.key).isSome = true := by
    rw [get?, List.find?_isSome]
    exact ⟨row, h, beq_self_eq_true row.key⟩
  obtain ⟨found, hfound⟩ := Option.isSome_iff_exists.mp hsome
  have hmem : found ∈ t.rows := List.mem_of_find?_eq_some hfound
  have hkey : (found.key == row.key) = true := List.find?_some (p := fun r : Row => r.key == row.key) hfound
  rw [hfound, Table.eq_of_key hmem h (beq_iff_eq.mp hkey)]

namespace Table

/-- A row of a table after an insertion is the new one, or one of another key that was there before. -/
theorem mem_insert {t : Table} {new row : Row} :
    row ∈ (t.insert new).rows ↔ row = new ∨ (row ∈ t.rows ∧ row.key ≠ new.key) := by
  rw [insert, SortedAux.mem_insertSorted_iff t.ascending]
  refine or_congr_right (and_congr_right fun _ => not_congr ?_)
  exact ⟨Key.position_injective, fun h => by rw [h]⟩

/-- A row of a table in which a key is marked is one that was there before, with the time to live where it has that
key. -/
theorem mem_mark {t : Table} {key : Key} {ttl : Int64} {row : Row} :
    row ∈ (t.mark key ttl).rows ↔ ∃ old ∈ t.rows, (if old.key = key then old.withTtl ttl else old) = row :=
  List.mem_map

theorem every_empty : empty.Every p := fun _ h => absurd h List.not_mem_nil

theorem Every.insert {t : Table} (h : t.Every p) {new : Row} (hnew : p new.attributes) : (t.insert new).Every p := by
  intro row hrow
  rcases mem_insert.mp hrow with rfl | ⟨hrow, -⟩
  · exact hnew
  · exact h row hrow

/-- Insertions of rows with a property keep that property. -/
theorem Every.insertAll {t : Table} (h : t.Every p) {rows : List Row} (hrows : ∀ row ∈ rows, p row.attributes) :
    (rows.foldl Table.insert t).Every p := by
  induction rows generalizing t with
  | nil => exact h
  | cons row rest ih =>
    exact ih (h.insert (hrows row (List.mem_cons_self ..))) fun other ho => hrows other (List.mem_cons_of_mem _ ho)

theorem Every.mark (hp : Fields.IsKeptByTtl p) {t : Table} (h : t.Every p) (key : Key) (ttl : Int64) :
    (t.mark key ttl).Every p := by
  intro row hrow
  obtain ⟨old, hold, rfl⟩ := mem_mark.mp hrow
  split
  · exact hp old ttl (h old hold)
  · exact h old hold

end Table

/-! ## Requests -/

namespace Store

/-- The row to be written of a group of attributes has these attributes. -/
theorem attributes_of_rowOf {attributes : Fields} {row : Row} (h : rowOf attributes = .ok row) :
    row.attributes = attributes := by
  unfold rowOf Row.ofAttributes? at h
  split at h
  next found hfound =>
    split at hfound
    · rw [← Except.ok.inj h, ← Option.some.inj hfound]
    · exact absurd hfound.symm (Option.some_ne_none _)
  · exact absurd h (by simp)

/-- The rows to be written of a batch have the attributes that are in the batch. -/
theorem mem_of_rowsOf {batch : List Fields} {rows : List Row} (h : rowsOf batch = .ok rows) :
    ∀ row ∈ rows, row.attributes ∈ batch := by
  induction batch generalizing rows with
  | nil =>
    rw [← Except.ok.inj h]
    intro _ hrow
    exact absurd hrow List.not_mem_nil
  | cons attributes rest ih =>
    rw [rowsOf] at h
    split at h
    · exact absurd h (by simp)
    next first hfirst =>
      cases hrest : rowsOf rest with
      | error e => rw [hrest] at h; exact absurd h (by simp [Except.map])
      | ok others =>
        rw [hrest] at h
        rw [← Except.ok.inj h]
        intro row hrow
        rcases List.mem_cons.mp hrow with rfl | hrow
        · rw [attributes_of_rowOf hfirst]
          exact List.mem_cons_self ..
        · exact List.mem_cons_of_mem _ (ih hrest row hrow)

/-- What is left undone of a batch is part of it. -/
theorem mem_of_batchWrite {s : Store} {table : String} {batch undone : List Fields}
    (h : (s.batchWrite table batch).1 = .ok undone) : ∀ a ∈ undone, a ∈ batch := by
  have hwrite : ∀ (s : Store) (part rest : List Fields), (s.writeBatch table part rest).1 = .ok undone →
      undone = rest := by
    intro s part rest h
    unfold Store.writeBatch at h
    split at h
    · exact absurd h (by simp)
    · split at h
      · exact absurd h (by simp)
      · exact (Except.ok.inj h).symm
  unfold Store.batchWrite Store.unlessThrottled at h
  dsimp only at h
  split at h
  · exact absurd h (by simp)
  · split at h
    · exact absurd h (by simp)
    · split at h
      · rw [hwrite _ _ _ h]
        intro a ha
        exact List.mem_of_getLast? (Option.mem_toList.mp ha)
      · rw [hwrite _ _ _ h]
        intro _ ha
        exact absurd ha List.not_mem_nil

theorem every_empty (indexName : String) : (empty indexName).Every p := fun _ => Table.every_empty

theorem tableOf_withTable (s : Store) (table other : String) (t : Table) :
    (s.withTable table t).tableOf other = if other = table then t else s.tableOf other := by
  rw [tableOf, withTable, Dict.get?_insert]
  split
  · rfl
  · rfl

namespace Every

variable {s : Store}

theorem withTable (h : s.Every p) (table : String) {t : Table} (ht : t.Every p) : (s.withTable table t).Every p := by
  intro other
  rw [tableOf_withTable]
  split
  · exact ht
  · exact h other

theorem write (h : s.Every p) (table : String) {rows : List Row} (hrows : ∀ row ∈ rows, p row.attributes) :
    (s.write table rows).Every p :=
  h.withTable table ((h table).insertAll hrows)

/-- A request keeps what its answer keeps, since throttling it changes no table. -/
theorem unlessThrottled {α : Type} {answer : Except GraphError α × Store} (h : s.Every p) (hanswer : answer.2.Every p) :
    (s.unlessThrottled answer).2.Every p := by
  unfold Store.unlessThrottled
  split
  · exact h
  · exact hanswer

/-- Putting attributes with a property past all faults keeps that property. -/
theorem place (h : s.Every p) (table : String) {attributes : Fields} (ha : p attributes) :
    (s.place table attributes).2.Every p := by
  unfold Store.place
  split
  · exact h
  next row hrow =>
    refine h.write table ?_
    intro other ho
    rw [List.mem_singleton.mp ho, attributes_of_rowOf hrow]
    exact ha

/-- Putting attributes with a property keeps that property. -/
theorem put (h : s.Every p) (table : String) {attributes : Fields} (ha : p attributes) (condition : PutCondition) :
    (s.put table attributes condition).2.Every p := by
  refine h.unlessThrottled ?_
  split
  · exact h
  next row hrow =>
    split
    · exact h
    · split
      · exact h
      · refine h.write table ?_
        intro other ho
        rw [List.mem_singleton.mp ho, attributes_of_rowOf hrow]
        exact ha

/-- Putting a batch of attributes with a property keeps that property. -/
theorem writeBatch (h : s.Every p) (table : String) {batch : List Fields} (hb : ∀ a ∈ batch, p a)
    (undone : List Fields) : (s.writeBatch table batch undone).2.Every p := by
  unfold Store.writeBatch
  split
  · exact h
  next rows hrows =>
    split
    · exact h
    · exact h.write table fun row hrow => hb _ (mem_of_rowsOf hrows row hrow)

/-- A batch of attributes with a property, some of which may be left undone, keeps that property. -/
theorem batchWrite (h : s.Every p) (table : String) {batch : List Fields} (hb : ∀ a ∈ batch, p a) :
    (s.batchWrite table batch).2.Every p := by
  unfold Store.batchWrite
  dsimp only
  split
  · exact h
  · refine unlessThrottled h ?_
    split
    · apply writeBatch
      · exact h
      · intro a ha
        exact hb a (List.dropLast_subset _ ha)
    · apply writeBatch
      · exact h
      · exact hb

theorem query (h : s.Every p) (table : String) (q : Query) : (s.query table q).2.Every p := h

/-- Setting a time to live keeps a property that a time to live keeps. -/
theorem updateTtl (hp : Fields.IsKeptByTtl p) (h : s.Every p) (table : String) (key : Key) (ttl : Int64) :
    (s.updateTtl table key ttl).2.Every p := by
  refine h.unlessThrottled ?_
  split
  · exact h
  · split
    · exact h.withTable table ((h table).mark hp key ttl)
    · exact h

end Every

/-- The store that holds records in one table, put one after the other. -/
def holding (indexName table : String) (records : List Record) : Store :=
  records.foldl (fun s r => (s.place table r.toAttributes).2) (empty indexName)

/-- Every row of a store that holds records has a property which their attributes have. -/
theorem every_holding (indexName table : String) {records : List Record} (h : ∀ r ∈ records, p r.toAttributes) :
    (holding indexName table records).Every p := by
  suffices ∀ s : Store, s.Every p → (records.foldl (fun s r => (s.place table r.toAttributes).2) s).Every p from
    this _ (every_empty indexName)
  induction records with
  | nil => exact fun _ hs => hs
  | cons r rest ih =>
    intro s hs
    exact ih (fun other ho => h other (List.mem_cons_of_mem _ ho)) _ (hs.place table (h r (List.mem_cons_self ..)))

end Store

/-! ## Operations on a store -/

namespace Store.Every

variable {s : Store}

/-- Putting new rows of records with a property keeps that property. -/
theorem putNew (h : s.Every p) (table : String) {records : List Record} (hr : ∀ r ∈ records, p r.toAttributes) :
    (PropertyGraph.putNew s table records).2.Every p := by
  induction records generalizing s with
  | nil => exact h
  | cons r rest ih =>
    have hput := h.put table (hr r (List.mem_cons_self ..)) .ifNotExists
    have hrest := ih hput fun other ho => hr other (List.mem_cons_of_mem _ ho)
    rw [PropertyGraph.putNew]
    dsimp only
    split <;> exact hrest

/-- Writing a chunk of attributes with a property keeps that property, however often it is tried again. -/
theorem writeChunk (h : s.Every p) (table : String) (retries : Nat) {pending : List Fields} (hp : ∀ a ∈ pending, p a) :
    (PropertyGraph.writeChunk s table retries pending).2.Every p := by
  induction retries generalizing s pending with
  | zero =>
    have hwrite := h.batchWrite table hp
    rw [PropertyGraph.writeChunk, Store.storage_batchWrite]
    split
    next s' heq => rwa [heq] at hwrite
    next undone s' _ heq => rwa [heq] at hwrite
    next e s' heq =>
      rw [heq] at hwrite
      split <;> exact hwrite
  | succ left ih =>
    have hwrite := h.batchWrite table hp
    rw [PropertyGraph.writeChunk, Store.storage_batchWrite]
    split
    next s' heq => rwa [heq] at hwrite
    next undone s' _ heq =>
      have hundone : (s.batchWrite table pending).1 = .ok undone := by rw [heq]
      rw [heq] at hwrite
      exact ih hwrite fun a ha => hp a (mem_of_batchWrite hundone a ha)
    next e s' heq =>
      rw [heq] at hwrite
      split
      · exact ih hwrite hp
      · exact hwrite

/-- Writing chunks of attributes with a property keeps that property. -/
theorem writeChunks (h : s.Every p) (table : String) (retries : Nat) {pieces : List (List Fields)}
    (hp : ∀ piece ∈ pieces, ∀ a ∈ piece, p a) : (PropertyGraph.writeChunks s table retries pieces).2.Every p := by
  induction pieces generalizing s with
  | nil => exact h
  | cons piece rest ih =>
    exact ih (h.writeChunk table retries (hp piece (List.mem_cons_self ..)))
      fun other ho => hp other (List.mem_cons_of_mem _ ho)

/-- Writing records with a property keeps that property. -/
theorem writeRecords (h : s.Every p) (table : String) (size retries : Nat) {records : List Record}
    (hr : ∀ r ∈ records, p r.toAttributes) : (PropertyGraph.writeRecords s table size retries records).2.Every p := by
  have hchunks : ∀ chunk ∈ (chunks size records).map (·.map Record.toAttributes), ∀ a ∈ chunk, p a := by
    intro chunk hchunk a ha
    obtain ⟨piece, hpiece, rfl⟩ := List.mem_map.mp hchunk
    obtain ⟨r, hmem, rfl⟩ := List.mem_map.mp ha
    have hin : r ∈ (chunks size records).flatten := List.mem_flatten.mpr ⟨piece, hpiece, hmem⟩
    rw [chunks_flatten] at hin
    exact hr r hin
  exact h.writeChunks table retries hchunks

/-- Marking rows keeps a property that a time to live keeps. -/
theorem markRows (hp : Fields.IsKeptByTtl p) (h : s.Every p) (table : String) (ttl : Int64) (rows : List Row) :
    (PropertyGraph.markRows s table ttl rows).2.Every p := by
  induction rows generalizing s with
  | nil => exact h
  | cons row rest ih => exact ih (h.updateTtl hp table row.key ttl)

/-- Marking the rows of all pages of a query keeps a property that a time to live keeps. -/
theorem scan (hp : Fields.IsKeptByTtl p) (h : s.Every p) (table : String) (ttl : Int64) (q : Query) :
    (PropertyGraph.scan s table ttl q).2.Every p := by
  induction s, q using @PropertyGraph.scan.induct Store _ table ttl with
  | case1 s q e he =>
    rw [scan_error he]
    exact h
  | case2 s q page hpage hlast =>
    rw [scan_last hpage hlast]
    exact (h.query table q).markRows hp table ttl _
  | case3 s q page hpage last hlast ih =>
    rw [scan_next hpage hlast]
    exact ih ((h.query table q).markRows hp table ttl _)

/-- Deleting entities keeps a property that a time to live keeps. -/
theorem softDeleteMany (hp : Fields.IsKeptByTtl p) (h : s.Every p) (table : String) (pageLimit : Nat) (ttl now : Int64)
    (ids : List String) : (PropertyGraph.softDeleteMany s table pageLimit ttl now ids).2.Every p := by
  induction ids generalizing s with
  | nil => exact h
  | cons id rest ih => exact ih (h.scan hp table ttl _)

end Store.Every

end PropertyGraph
