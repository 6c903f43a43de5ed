import Mathlib.Data.List.Nodup
import PropertyGraph.Engine
import PropertyGraph.Proofs.Readable

/-!
# What a write leaves

After records are written a table has their rows and, under other keys, the rows that it had (`Table.Wrote`); where
several of them have one key, it has the row of one of these. In a store without faults, of rows that must be new
exactly those are put whose keys are not there (`putNew_wrote`); where the keys are new and distinct these are all of
them, without an error (`putNew_eq`).
-/

namespace PropertyGraph

/-- Whether no request that comes to a store meets a fault. -/
structure Store.IsFaultless (s : Store) : Prop where
  throttled : s.throttledCalls = 0
  undone : s.undoneRounds = 0
  rejected : s.failingIds = []

/-- Whether a table came from another one by writing records. -/
structure Table.Wrote (t t' : Table) (records : List Record) : Prop where
  /-- A row is that of one of the records, or an old one under another key. -/
  rows : ∀ row ∈ t'.rows, (∃ r ∈ records, row.attributes = r.toAttributes) ∨
    (row ∈ t.rows ∧ ∀ r ∈ records, r.key ≠ row.key)
  /-- No key is lost. -/
  old_keys : ∀ row ∈ t.rows, ∃ found ∈ t'.rows, found.key = row.key
  /-- Under the key of each record there is a row. -/
  new_keys : ∀ r ∈ records, ∃ found ∈ t'.rows, found.key = r.key

namespace Table

/-- Whether there is no row under the key of a record. -/
def lacks (t : Table) (r : Record) : Bool := (t.get? r.key).isNone

variable {t : Table} {r : Record}

theorem lacks_iff : t.lacks r = true ↔ ∀ row ∈ t.rows, row.key ≠ r.key := by
  rw [lacks, Option.isNone_iff_eq_none, get?, List.find?_eq_none]
  exact forall₂_congr fun row _ => by rw [beq_iff_eq]

theorem lacks_eq_false_iff : t.lacks r = false ↔ ∃ row ∈ t.rows, row.key = r.key := by
  rw [lacks, Option.isNone_eq_false_iff, get?, List.find?_isSome]
  simp only [beq_iff_eq]

end Table

namespace Table.Wrote

variable {t t' t'' : Table} {records others : List Record}

theorem refl (t : Table) : t.Wrote t [] where
  rows _ hrow := Or.inr ⟨hrow, fun _ hr => absurd hr List.not_mem_nil⟩
  old_keys row hrow := ⟨row, hrow, rfl⟩
  new_keys _ hr := absurd hr List.not_mem_nil

/-- Writing records and then others. -/
theorem trans (h : t.Wrote t' records) (h' : t'.Wrote t'' others) : t.Wrote t'' (records ++ others) where
  rows row hrow := by
    rcases h'.rows row hrow with ⟨r, hr, hattributes⟩ | ⟨hrow, hother⟩
    · exact Or.inl ⟨r, List.mem_append_right _ hr, hattributes⟩
    · rcases h.rows row hrow with ⟨r, hr, hattributes⟩ | ⟨hrow, hkey⟩
      · exact Or.inl ⟨r, List.mem_append_left _ hr, hattributes⟩
      · refine Or.inr ⟨hrow, fun r hr => ?_⟩
        rcases List.mem_append.mp hr with hr | hr
        · exact hkey r hr
        · exact hother r hr
  old_keys row hrow := by
    obtain ⟨middle, hmiddle, hkey⟩ := h.old_keys row hrow
    obtain ⟨found, hfound, hkey'⟩ := h'.old_keys middle hmiddle
    exact ⟨found, hfound, hkey'.trans hkey⟩
  new_keys r hr := by
    rcases List.mem_append.mp hr with hr | hr
    · obtain ⟨middle, hmiddle, hkey⟩ := h.new_keys r hr
      obtain ⟨found, hfound, hkey'⟩ := h'.old_keys middle hmiddle
      exact ⟨found, hfound, hkey'.trans hkey⟩
    · exact h'.new_keys r hr

/-- Records whose keys are written with others are as good as written. -/
theorem mono (h : t.Wrote t' records) (hsubset : records ⊆ others)
    (hkeys : ∀ r ∈ others, ∃ taken ∈ records, taken.key = r.key) :
    t.Wrote t' others where
  rows row hrow := by
    rcases h.rows row hrow with ⟨r, hr, hattributes⟩ | ⟨hrow, hkey⟩
    · exact Or.inl ⟨r, hsubset hr, hattributes⟩
    · refine Or.inr ⟨hrow, fun r hr => ?_⟩
      obtain ⟨taken, htaken, hsame⟩ := hkeys r hr
      exact hsame ▸ hkey taken htaken
  old_keys := h.old_keys
  new_keys r hr := by
    obtain ⟨taken, htaken, hsame⟩ := hkeys r hr
    exact hsame ▸ h.new_keys taken htaken

/-- Writing records and then those others whose keys are not there is writing both, where of the others those are left
out whose keys were there before. -/
theorem trans_lacking (hr : ∀ r ∈ records, r.IsStorable) (h : t.Wrote t' records)
    (h' : t'.Wrote t'' (others.filter t'.lacks)) : t.Wrote t'' (records ++ others.filter t.lacks) := by
  refine (h.trans h').mono ?_ ?_
  · refine List.append_subset.mpr ⟨List.subset_append_left .., fun other ho => List.mem_append_right _ ?_⟩
    obtain ⟨hmem, hlacks⟩ := List.mem_filter.mp ho
    refine List.mem_filter.mpr ⟨hmem, lacks_iff.mpr fun row hrow hkey => ?_⟩
    obtain ⟨found, hfound, hsame⟩ := h.old_keys row hrow
    exact lacks_iff.mp hlacks found hfound (hsame.trans hkey)
  · intro other ho
    rcases List.mem_append.mp ho with ho | ho
    · exact ⟨other, List.mem_append_left _ ho, rfl⟩
    · obtain ⟨hmem, hlacks⟩ := List.mem_filter.mp ho
      cases hthere : t'.lacks other with
      | true => exact ⟨other, List.mem_append_right _ (List.mem_filter.mpr ⟨hmem, hthere⟩), rfl⟩
      | false =>
        obtain ⟨row, hrow, hkey⟩ := lacks_eq_false_iff.mp hthere
        rcases h.rows row hrow with ⟨r, hmem, hattributes⟩ | ⟨hold, -⟩
        · exact ⟨r, List.mem_append_left _ hmem, (Row.key_of_attributes hattributes (hr r hmem)).symm.trans hkey⟩
        · exact absurd hkey (lacks_iff.mp hlacks row hold)

/-- An insertion of the row of a record writes the record. -/
theorem insert (t : Table) {row : Row} {r : Record} (hattributes : row.attributes = r.toAttributes)
    (hkey : row.key = r.key) :
    t.Wrote (t.insert row) [r] where
  rows other ho := by
    rcases mem_insert.mp ho with rfl | ⟨hold, hne⟩
    · exact Or.inl ⟨r, List.mem_singleton.mpr rfl, hattributes⟩
    · refine Or.inr ⟨hold, fun record hrecord => ?_⟩
      rw [List.mem_singleton.mp hrecord, ← hkey]
      exact hne.symm
  old_keys other ho := by
    by_cases h : other.key = row.key
    · exact ⟨row, mem_insert.mpr (Or.inl rfl), h.symm⟩
    · exact ⟨other, mem_insert.mpr (Or.inr ⟨ho, h⟩), rfl⟩
  new_keys record hrecord := by
    rw [List.mem_singleton.mp hrecord]
    exact ⟨row, mem_insert.mpr (Or.inl rfl), hkey⟩

end Table.Wrote

namespace Store

/-- A record that can be stored has a row with its key. -/
theorem exists_rowOf {r : Record} (h : r.IsStorable) :
    ∃ row, rowOf r.toAttributes = .ok row ∧ row.attributes = r.toAttributes ∧ row.key = r.key := by
  refine ⟨⟨r.toAttributes, r.key, r.key?_toAttributes h⟩, ?_, rfl, rfl⟩
  have hrow : Row.ofAttributes? r.toAttributes = some ⟨r.toAttributes, r.key, r.key?_toAttributes h⟩ := by
    unfold Row.ofAttributes?
    split
    next key hkey =>
      obtain rfl : key = r.key := Option.some.inj (hkey.symm.trans (r.key?_toAttributes h))
      rfl
    next hnone => exact absurd (hnone.symm.trans (r.key?_toAttributes h)) (Option.some_ne_none _).symm
  rw [rowOf, hrow]

end Store

/-! ## Writing in a store -/

/-- Whether a store came from another one by writing records in a table. Neither meets faults. -/
structure Store.Wrote (s s' : Store) (table : String) (records : List Record) : Prop where
  faultless : s'.IsFaultless
  index : s'.indexName = s.indexName
  wrote : (s.tableOf table).Wrote (s'.tableOf table) records
  others : ∀ other, other ≠ table → s'.tableOf other = s.tableOf other

namespace Store

variable {s s' s'' : Store} {table : String} {records others : List Record}

theorem Wrote.refl (hs : s.IsFaultless) (table : String) : s.Wrote s table [] := ⟨hs, rfl, .refl _, fun _ _ => rfl⟩

/-- Writing records and then others. -/
theorem Wrote.trans (h : s.Wrote s' table records) (h' : s'.Wrote s'' table others) :
    s.Wrote s'' table (records ++ others) where
  faultless := h'.faultless
  index := h'.index.trans h.index
  wrote := h.wrote.trans h'.wrote
  others other ho := (h'.others other ho).trans (h.others other ho)

theorem tableOf_write (s : Store) (table : String) (rows : List Row) :
    (s.write table rows).tableOf table = rows.foldl Table.insert (s.tableOf table) := by
  rw [write, tableOf_withTable, if_pos rfl]

/-- Writing the rows of records in a table. -/
theorem wrote_write (hs : s.IsFaultless) {rows : List Row}
    (h : (s.tableOf table).Wrote (rows.foldl Table.insert (s.tableOf table)) records) :
    s.Wrote (s.write table rows) table records where
  faultless := ⟨hs.throttled, hs.undone, hs.rejected⟩
  index := rfl
  wrote := by
    rw [tableOf_write]
    exact h
  others other ho := by rw [write, tableOf_withTable, if_neg ho]

/-- What a put comes to that was not throttled. -/
def settle (s : Store) (table : String) (attributes : Fields) (condition : PutCondition) :
    Except GraphError Unit × Store :=
  match rowOf attributes with
  | .error e => (.error e, s)
  | .ok row =>
    if s.rejects row.key.id then (.error (.store (.writeRejected row.key.id)), s)
    else if condition = .ifNotExists ∧ ((s.tableOf table).get? row.key).isSome then (.error (.rowExists row.key), s)
    else (.ok (), s.write table [row])

theorem put_eq_settle (s : Store) (table : String) (attributes : Fields) (condition : PutCondition) :
    s.put table attributes condition = s.unlessThrottled (s.settle table attributes condition) :=
  rfl

/-- A put of a record that must be new is rejected, or finds a row under its key, or adds the row of the record. -/
theorem settle_cases (s : Store) (table : String) {r : Record} (hr : r.IsStorable) :
    (s.rejects r.key.id = true ∧
      s.settle table r.toAttributes .ifNotExists = (.error (.store (.writeRejected r.key.id)), s)) ∨
    (s.rejects r.key.id = false ∧ (s.tableOf table).lacks r = false ∧
      s.settle table r.toAttributes .ifNotExists = (.error (.rowExists r.key), s)) ∨
    (s.rejects r.key.id = false ∧ (s.tableOf table).lacks r = true ∧
      ∃ row : Row, row.attributes = r.toAttributes ∧ row.key = r.key ∧
      s.settle table r.toAttributes .ifNotExists = (.ok (), s.write table [row])) := by
  obtain ⟨row, hrow, hattributes, hkey⟩ := exists_rowOf hr
  unfold settle
  rw [hrow]
  dsimp only
  rw [hkey]
  cases hrejects : s.rejects r.key.id with
  | true => exact Or.inl ⟨rfl, if_pos rfl⟩
  | false =>
    refine Or.inr ?_
    rw [if_neg Bool.false_ne_true]
    cases hlacks : (s.tableOf table).lacks r with
    | true =>
      refine Or.inr ⟨rfl, rfl, row, hattributes, hkey, if_neg ?_⟩
      rintro ⟨-, hsome⟩
      rw [Table.lacks, Option.isNone_iff_eq_none] at hlacks
      rw [hlacks] at hsome
      exact Bool.false_ne_true hsome
    | false => exact Or.inl ⟨rfl, rfl, if_pos ⟨rfl, Option.isNone_eq_false_iff.mp hlacks⟩⟩

/-- In a store without faults a row that must be new is put exactly where its key is not there, and is refused
otherwise. -/
theorem put_eq (hs : s.IsFaultless) (table : String) {r : Record} (hr : r.IsStorable) :
    ∃ s', s.put table r.toAttributes .ifNotExists =
      (if (s.tableOf table).lacks r then .ok () else .error (.rowExists r.key), s') ∧
      s.Wrote s' table ([r].filter (s.tableOf table).lacks) := by
  rw [put_eq_settle, unlessThrottled, if_neg (by rw [hs.throttled]; exact Nat.lt_irrefl 0)]
  rcases s.settle_cases table hr with
    ⟨hrejects, -⟩ | ⟨-, hlacks, hsettle⟩ | ⟨-, hlacks, row, hattributes, hkey, hsettle⟩
  · rw [rejects, hs.rejected] at hrejects
    exact absurd hrejects Bool.false_ne_true
  · rw [hsettle, hlacks, if_neg Bool.false_ne_true, List.filter_cons_of_neg (by rw [hlacks]; exact Bool.false_ne_true)]
    exact ⟨s, rfl, .refl hs table⟩
  · rw [hsettle, hlacks, if_pos rfl, List.filter_cons_of_pos hlacks]
    exact ⟨_, rfl, wrote_write hs (.insert _ hattributes hkey)⟩

end Store

/-- In a store without faults exactly those of the rows that must be new are put whose keys are not there. -/
theorem putNew_wrote {s : Store} (hs : s.IsFaultless) (table : String) {records : List Record}
    (hr : ∀ r ∈ records, r.IsStorable) :
    s.Wrote (putNew s table records).2 table (records.filter (s.tableOf table).lacks) := by
  induction records generalizing s with
  | nil => exact .refl hs table
  | cons r rest ih =>
    obtain ⟨middle, hput, hfirst⟩ := Store.put_eq hs table (hr r (List.mem_cons_self ..))
    have hothers := ih hfirst.faultless fun other ho => hr other (List.mem_cons_of_mem _ ho)
    have hcons : (putNew s table (r :: rest)).2 = (putNew middle table rest).2 := by
      rw [putNew, Store.storage_put, hput]
      dsimp only
      split <;> rfl
    have hstorable : ∀ record ∈ [r].filter (s.tableOf table).lacks, record.IsStorable := fun record hrecord =>
      List.mem_singleton.mp (List.mem_filter.mp hrecord).1 ▸ hr r (List.mem_cons_self ..)
    rw [hcons, ← List.singleton_append, List.filter_append]
    exact { hfirst.trans hothers with wrote := hfirst.wrote.trans_lacking hstorable hothers.wrote }

/-! ## Rows of new keys -/

namespace Table

variable {t t' : Table} {records : List Record}

/-- Whether a table has the rows of another one and those of some records. -/
def HasAlso (t' t : Table) (records : List Record) : Prop :=
  ∀ row, row ∈ t'.rows ↔ row ∈ t.rows ∨ ∃ r ∈ records, row.attributes = r.toAttributes

/-- After records of distinct keys were written, a table has their rows and the old ones under other keys. -/
theorem Wrote.mem_iff (h : t.Wrote t' records) (hr : ∀ r ∈ records, r.IsStorable)
    (hkeys : (records.map Record.key).Nodup) {row : Row} :
    row ∈ t'.rows ↔ (∃ r ∈ records, row.attributes = r.toAttributes) ∨
    (row ∈ t.rows ∧ ∀ r ∈ records, r.key ≠ row.key) := by
  refine ⟨h.rows row, ?_⟩
  rintro (⟨r, hmem, hattributes⟩ | ⟨hold, hother⟩)
  · obtain ⟨found, hfound, hkey⟩ := h.new_keys r hmem
    rcases h.rows found hfound with ⟨other, ho, hsame⟩ | ⟨-, hnone⟩
    · have hotherKey : other.key = r.key := (Row.key_of_attributes hsame (hr other ho)).symm.trans hkey
      obtain rfl : other = r := List.inj_on_of_nodup_map hkeys ho hmem hotherKey
      exact Row.eq_of_attributes (hattributes.trans hsame.symm) ▸ hfound
    · exact absurd hkey.symm (hnone r hmem)
  · obtain ⟨found, hfound, hkey⟩ := h.old_keys row hold
    rcases h.rows found hfound with ⟨r, hmem, hsame⟩ | ⟨hthere, -⟩
    · exact absurd ((Row.key_of_attributes hsame (hr r hmem)).symm.trans hkey) (hother r hmem)
    · exact eq_of_key hthere hold hkey ▸ hfound

/-- After records of distinct keys were written, none of which was there, a table has them also. -/
theorem Wrote.hasAlso (h : t.Wrote t' records) (hr : ∀ r ∈ records, r.IsStorable)
    (hkeys : (records.map Record.key).Nodup) (hnew : ∀ r ∈ records, t.lacks r = true) : t'.HasAlso t records := by
  intro row
  rw [h.mem_iff hr hkeys, or_comm]
  exact or_congr_left (and_iff_left_of_imp fun hold r hmem hkey => lacks_iff.mp (hnew r hmem) row hold hkey.symm)

/-- A table whose rows are those of a readable one and of records that can be stored is readable. -/
theorem isReadable_of_rows (ht : t.IsReadable) (hr : ∀ r ∈ records, r.IsStorable)
    (h : ∀ row ∈ t'.rows, row ∈ t.rows ∨ ∃ r ∈ records, row.attributes = r.toAttributes) : t'.IsReadable := by
  intro row hrow
  rcases h row hrow with hold | ⟨r, hmem, hattributes⟩
  · exact ht row hold
  · rw [hattributes]
    exact r.isRecord_toAttributes (hr r hmem)

theorem Wrote.isReadable (h : t.Wrote t' records) (ht : t.IsReadable) (hr : ∀ r ∈ records, r.IsStorable) :
    t'.IsReadable :=
  isReadable_of_rows ht hr fun row hrow => (h.rows row hrow).symm.imp_left And.left

theorem HasAlso.isReadable (h : t'.HasAlso t records) (ht : t.IsReadable) (hr : ∀ r ∈ records, r.IsStorable) :
    t'.IsReadable :=
  isReadable_of_rows ht hr fun row hrow => (h row).mp hrow

/-- A record that is also there has a row. -/
theorem HasAlso.exists_row (h : t'.HasAlso t records) {r : Record} (hmem : r ∈ records) (hr : r.IsStorable) :
    ∃ row ∈ t'.rows, row.key = r.key ∧ Record.ofAttributes row.attributes = .ok r := by
  refine ⟨⟨r.toAttributes, r.key, r.key?_toAttributes hr⟩, ?_, rfl, r.ofAttributes_toAttributes hr⟩
  exact (h _).mpr (Or.inr ⟨r, hmem, rfl⟩)

end Table

/-- Records of distinct keys, none of which is there, are put without an error. -/
theorem putNew_errors {s : Store} (hs : s.IsFaultless) (table : String) {records : List Record}
    (hr : ∀ r ∈ records, r.IsStorable) (hkeys : (records.map Record.key).Nodup)
    (hnew : ∀ r ∈ records, (s.tableOf table).lacks r = true) : (putNew s table records).1 = [] := by
  induction records generalizing s with
  | nil => rfl
  | cons r rest ih =>
    rw [List.map_cons, List.nodup_cons] at hkeys
    have hstorable : r.IsStorable := hr r (List.mem_cons_self ..)
    have hlacks := hnew r (List.mem_cons_self ..)
    obtain ⟨middle, hput, hwrote⟩ := Store.put_eq hs table hstorable
    rw [List.filter_cons_of_pos hlacks] at hwrote
    have hnew' : ∀ other ∈ rest, (middle.tableOf table).lacks other = true := by
      intro other ho
      refine Table.lacks_iff.mpr fun row hrow hkey => ?_
      rcases hwrote.wrote.rows row hrow with ⟨record, hrecord, hattributes⟩ | ⟨hold, -⟩
      · obtain rfl := List.mem_singleton.mp hrecord
        exact hkeys.1 (List.mem_map.mpr ⟨other, ho, hkey.symm.trans (Row.key_of_attributes hattributes hstorable)⟩)
      · exact Table.lacks_iff.mp (hnew other (List.mem_cons_of_mem _ ho)) row hold hkey
    have hrest := ih hwrote.faultless (fun other ho => hr other (List.mem_cons_of_mem _ ho)) hkeys.2 hnew'
    rw [putNew, Store.storage_put, hput, if_pos hlacks]
    exact hrest

/-- Records of new and distinct keys are all put without an error, and the table has them also. -/
theorem putNew_eq {s : Store} {table : String} {records : List Record} (hs : s.IsFaultless)
    (hr : ∀ r ∈ records, r.IsStorable) (hkeys : (records.map Record.key).Nodup)
    (hnew : ∀ r ∈ records, ∀ row ∈ (s.tableOf table).rows, row.key ≠ r.key) :
    ∃ s', putNew s table records = ([], s') ∧ s'.IsFaultless ∧ s'.indexName = s.indexName ∧
      (s'.tableOf table).HasAlso (s.tableOf table) records := by
  have hlacks : ∀ r ∈ records, (s.tableOf table).lacks r = true := fun r hmem => Table.lacks_iff.mpr (hnew r hmem)
  have hwrote := putNew_wrote hs table hr
  rw [List.filter_eq_self.mpr hlacks] at hwrote
  exact ⟨_, Prod.ext (putNew_errors hs table hr hkeys hlacks) rfl, hwrote.faultless, hwrote.index,
    hwrote.wrote.hasAlso hr hkeys hlacks⟩

end PropertyGraph
