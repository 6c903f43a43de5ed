import PropertyGraph.Proofs.Deleting
import PropertyGraph.Proofs.Shown

/-!
# What each request changes

A request is refused, and then every table is as it was (`Store.Spares`, `Store.spares_ask`), or it changes what it
says and nothing else. A put and a batch of puts leave under each key what was put last under it (`Store.HasPut`); a
time to live that is set stands in the one row of its key. When a request succeeds is said by one equivalence for each
kind (`Store.put_eq_ok_iff`, `Store.batchWrite_eq_ok_iff`, `Store.updateTtl_eq_ok_iff`), from which
`Store.writes_are_whole` follows.
-/

namespace PropertyGraph

/-! ## Rows under their keys -/

/-- Writing a name leaves the other entries as they are, and in their order. -/
theorem Assoc.filter_insert {α : Type} (name : String) (content : α) (entries : Assoc α) :
    (Assoc.insert name content entries).filter (fun entry => entry.1 != name) =
      entries.filter fun entry => entry.1 != name := by
  induction entries with
  | nil => simp [insert]
  | cons entry rest ih =>
    obtain ⟨other, old⟩ := entry
    rw [insert]
    split
    next h => simp [h]
    next h => rw [List.filter_cons, List.filter_cons, ih]

namespace Table

variable {t : Table} {key : Key} {row : Row}

theorem get?_eq_some_iff : t.get? key = some row ↔ row ∈ t.rows ∧ row.key = key :=
  ⟨key_of_get?, fun ⟨hrow, hkey⟩ => hkey ▸ get?_of_mem hrow⟩

/-- What a table has under a key after an insertion. -/
theorem get?_insert (t : Table) (row : Row) (key : Key) :
    (t.insert row).get? key = if row.key = key then some row else t.get? key := by
  ext found
  rw [get?_eq_some_iff, mem_insert]
  split
  next h =>
    rw [Option.some.injEq]
    constructor
    · rintro ⟨rfl | ⟨-, hne⟩, hkey⟩
      · rfl
      · exact absurd (hkey.trans h.symm) hne
    · rintro rfl
      exact ⟨Or.inl rfl, h⟩
  next h =>
    rw [get?_eq_some_iff]
    constructor
    · rintro ⟨rfl | ⟨hold, -⟩, hkey⟩
      · exact absurd hkey h
      · exact ⟨hold, hkey⟩
    · rintro ⟨hold, rfl⟩
      exact ⟨Or.inr ⟨hold, Ne.symm h⟩, rfl⟩

/-- What a table has under a key after insertions: the latest row of the key, which is the first row where none that
was inserted after it has the key. -/
theorem get?_insertAll (t : Table) (rows : List Row) (key : Key) :
    (rows.foldl Table.insert t).get? key = (rows.reverse.find? fun row => row.key = key).or (t.get? key) := by
  induction rows generalizing t with
  | nil => rfl
  | cons row rest ih =>
    rw [List.foldl_cons, ih, get?_insert, List.reverse_cons, List.find?_append, Option.or_assoc]
    congr 1
    by_cases h : row.key = key
    · rw [if_pos h, List.find?_cons_of_pos (by simpa using h), Option.some_or]
    · rw [if_neg h, List.find?_cons_of_neg (by simpa using h), List.find?_nil, Option.none_or]

/-- What a table has under a key after a key was marked. -/
theorem get?_mark (t : Table) (marked : Key) (ttl : Int64) (key : Key) :
    (t.mark marked ttl).get? key = if key = marked then (t.get? marked).map (·.withTtl ttl) else t.get? key := by
  ext found
  rw [get?_eq_some_iff, mem_mark]
  split
  next h =>
    subst h
    rw [Option.map_eq_some_iff]
    constructor
    · rintro ⟨⟨old, hold, rfl⟩, hkey⟩
      by_cases hold' : old.key = key
      · exact ⟨old, get?_eq_some_iff.mpr ⟨hold, hold'⟩, (if_pos hold').symm⟩
      · rw [if_neg hold'] at hkey
        exact absurd hkey hold'
    · rintro ⟨old, hget, rfl⟩
      obtain ⟨hold, rfl⟩ := get?_eq_some_iff.mp hget
      exact ⟨⟨old, hold, if_pos rfl⟩, rfl⟩
  next h =>
    rw [get?_eq_some_iff]
    constructor
    · rintro ⟨⟨old, hold, rfl⟩, hkey⟩
      by_cases hold' : old.key = marked
      · rw [if_pos hold'] at hkey
        exact absurd (hkey.symm.trans hold') h
      · rw [if_neg hold'] at hkey ⊢
        exact ⟨hold, hkey⟩
    · rintro ⟨hold, rfl⟩
      exact ⟨⟨found, hold, if_neg h⟩, rfl⟩

end Table

/-! ## Puts, one after the other -/

/-- What was put last under a key. -/
def Fields.latest? (puts : List Fields) (key : Key) : Option Fields :=
  puts.reverse.find? fun attributes => attributes.key? = some key

/-- What was put last under a key stands in the latest row of the key. -/
theorem Fields.latest?_map (rows : List Row) (key : Key) :
    latest? (rows.map Row.attributes) key = (rows.reverse.find? fun row => row.key = key).map Row.attributes := by
  have hkey : ((fun attributes : Fields => decide (attributes.key? = some key)) ∘ Row.attributes) =
      fun row => decide (row.key = key) := by
    funext row
    simp only [Function.comp_apply, row.carries, Option.some.injEq]
  rw [latest?, ← List.map_reverse, List.find?_map, hkey]

namespace Store

/-- Whether a store came from another one by puts into a table, one after the other: under each key is what was put
last under it, or, where nothing was, what was there before, and every other table is as it was. -/
structure HasPut (s s' : Store) (table : String) (puts : List Fields) : Prop where
  rows : ∀ key, s'.get? table key = (Fields.latest? puts key).or (s.get? table key)
  others : ∀ other, other ≠ table → s'.tableOf other = s.tableOf other

/-- Whether attributes may be put into a store: they carry a key, of a partition in which puts are not rejected. -/
def Takes (s : Store) (attributes : Fields) : Prop := ∃ key, attributes.key? = some key ∧ s.rejects key.id = false

variable {s s' : Store} {table : String} {attributes : Fields} {row : Row}

/-- Attributes are to be written as the row that has them. -/
theorem rowOf_eq_ok_iff : rowOf attributes = .ok row ↔ row.attributes = attributes := by
  refine ⟨attributes_of_rowOf, ?_⟩
  rintro rfl
  have hrow : Row.ofAttributes? row.attributes = some row := by
    unfold Row.ofAttributes?
    split
    next key hkey => exact congrArg some (Row.eq_of_attributes rfl)
    next hnone => exact absurd (hnone.symm.trans row.carries) (Option.some_ne_none _).symm
  rw [rowOf, hrow]

/-- Attributes may be put exactly where some row has them that may be put. -/
theorem takes_iff : s.Takes attributes ↔ ∃ row : Row, row.attributes = attributes ∧ s.rejects row.key.id = false := by
  constructor
  · rintro ⟨key, hkey, hrejects⟩
    exact ⟨⟨attributes, key, hkey⟩, rfl, hrejects⟩
  · rintro ⟨row, rfl, hrejects⟩
    exact ⟨row.key, row.carries, hrejects⟩

/-- Attributes may all be put exactly where they are those of rows that may be put. -/
theorem takes_all_iff {puts : List Fields} : (∀ attributes ∈ puts, s.Takes attributes) ↔
    ∃ rows : List Row, rows.map Row.attributes = puts ∧ ∀ row ∈ rows, s.rejects row.key.id = false := by
  constructor
  · intro h
    induction puts with
    | nil => exact ⟨[], rfl, nofun⟩
    | cons attributes rest ih =>
      obtain ⟨hhead, htail⟩ := List.forall_mem_cons.mp h
      obtain ⟨row, rfl, hrow⟩ := takes_iff.mp hhead
      obtain ⟨rows, rfl, hrows⟩ := ih htail
      exact ⟨row :: rows, rfl, List.forall_mem_cons.mpr ⟨hrow, hrows⟩⟩
  · rintro ⟨rows, rfl, hrejects⟩ attributes ha
    obtain ⟨row, hrow, rfl⟩ := List.mem_map.mp ha
    exact takes_iff.mpr ⟨row, rfl, hrejects row hrow⟩

/-- Writing rows puts their attributes. -/
theorem hasPut_write (s : Store) (table : String) (rows : List Row) :
    s.HasPut (s.write table rows) table (rows.map Row.attributes) where
  rows key := by
    rw [get?, tableOf_write, Table.get?_insertAll, Option.map_or, Fields.latest?_map]
    rfl
  others other ho := by rw [write, tableOf_withTable, if_neg ho]

/-! ## Requests that are refused -/

/-- Whether an answer leaves all tables as they were where it is an error. -/
def Spares {α : Type} (s : Store) (answer : Except GraphError α × Store) : Prop :=
  ∀ e, answer.1 = .error e → answer.2.tables = s.tables

theorem spares_of_tables {α : Type} {answer : Except GraphError α × Store} (h : answer.2.tables = s.tables) :
    s.Spares answer :=
  fun _ _ => h

theorem spares_ok {α : Type} (s s' : Store) (a : α) : s.Spares (.ok a, s') := nofun

theorem Spares.unlessThrottled {α : Type} {answer : Except GraphError α × Store} (h : s.Spares answer) :
    s.Spares (s.unlessThrottled answer) := by
  unfold Store.unlessThrottled
  split
  · exact spares_of_tables rfl
  · exact h

/-- A put that goes wrong leaves all tables as they were. -/
theorem spares_put (s : Store) (table : String) (attributes : Fields) (condition : PutCondition) :
    s.Spares (s.put table attributes condition) := by
  refine Spares.unlessThrottled ?_
  split
  · exact spares_of_tables rfl
  · split_ifs
    · exact spares_of_tables rfl
    · exact spares_of_tables rfl
    · exact spares_ok s _ ()

theorem spares_writeBatch (s : Store) (table : String) (batch undone : List Fields) :
    s.Spares (s.writeBatch table batch undone) := by
  unfold writeBatch
  split
  · exact spares_of_tables rfl
  · split
    · exact spares_of_tables rfl
    · exact spares_ok s _ undone

/-- A batch that goes wrong leaves all tables as they were, whatever was left undone of it. -/
theorem spares_batchWrite (s : Store) (table : String) (batch : List Fields) : s.Spares (s.batchWrite table batch) := by
  unfold batchWrite
  dsimp only
  split
  · exact spares_of_tables rfl
  · refine Spares.unlessThrottled (s := { s with batchWriteCalls := s.batchWriteCalls + 1 }) ?_
    split
    · exact spares_writeBatch { s with undoneRounds := s.undoneRounds - 1, batchWriteCalls := s.batchWriteCalls + 1 }
        table _ _
    · exact spares_writeBatch { s with batchWriteCalls := s.batchWriteCalls + 1 } table _ _

theorem spares_updateTtl (s : Store) (table : String) (key : Key) (ttl : Int64) :
    s.Spares (s.updateTtl table key ttl) := by
  refine Spares.unlessThrottled ?_
  split_ifs
  · exact spares_of_tables rfl
  · exact spares_ok s _ ()
  · exact spares_of_tables rfl

/-- A request that is refused leaves all tables as they were. -/
theorem spares_ask (s : Store) (r : StoreRequest) : s.Spares (r.ask s) := by
  cases r with
  | put table attributes condition => exact s.spares_put table attributes condition
  | batchWrite table batch => exact s.spares_batchWrite table batch
  | batchGet table keys => exact spares_of_tables (s.tables_batchGet table keys)
  | query table q => exact spares_of_tables rfl
  | updateTtl table key ttl => exact s.spares_updateTtl table key ttl

/-! ## Requests that succeed -/

/-- A request succeeds where it is not throttled and would succeed then. -/
theorem unlessThrottled_eq_ok_iff {α : Type} {answer : Except GraphError α × Store} {a : α} :
    s.unlessThrottled answer = (.ok a, s') ↔ s.throttledCalls = 0 ∧ answer = (.ok a, s') := by
  unfold Store.unlessThrottled
  split
  next h => simp [Nat.ne_of_gt h]
  next h => simp [Nat.eq_zero_of_not_pos h]

/-- When a put succeeds, and with which store. -/
theorem put_eq_ok_iff {condition : PutCondition} : s.put table attributes condition = (.ok (), s') ↔
    s.throttledCalls = 0 ∧ ∃ row : Row, row.attributes = attributes ∧ s.rejects row.key.id = false ∧
      (condition = .ifNotExists → s.get? table row.key = none) ∧ s.write table [row] = s' := by
  rw [put, unlessThrottled_eq_ok_iff]
  refine and_congr_right fun _ => ?_
  split
  next e he =>
    simp only [Prod.mk.injEq, reduceCtorEq, false_and, false_iff, not_exists, not_and]
    intro row hrow
    rw [rowOf_eq_ok_iff.mpr hrow] at he
    exact absurd he (by simp)
  next row hrow =>
    have hattributes := rowOf_eq_ok_iff.mp hrow
    have hthere : s.get? table row.key = none ↔ ¬ ((s.tableOf table).get? row.key).isSome := by
      rw [get?, Option.map_eq_none_iff, Option.not_isSome_iff_eq_none]
    constructor
    · intro h
      split_ifs at h with hrejects hcondition
      · simp at h
      · simp at h
      · refine ⟨row, hattributes, Bool.eq_false_iff.mpr hrejects,
          fun hc => hthere.mpr fun hsome => hcondition ⟨hc, hsome⟩, ?_⟩
        exact (Prod.mk.inj h).2
    · rintro ⟨other, ho, hrejects, hnew, rfl⟩
      obtain rfl : other = row := Row.eq_of_attributes (ho.trans hattributes.symm)
      rw [if_neg (Bool.eq_false_iff.mp hrejects), if_neg fun h => hthere.mp (hnew h.1) h.2]

/-- The rows of a batch are to be written that have its attributes. -/
theorem rowsOf_eq_ok_iff {batch : List Fields} {rows : List Row} :
    rowsOf batch = .ok rows ↔ rows.map Row.attributes = batch := by
  induction batch generalizing rows with
  | nil => rw [rowsOf, Except.ok.injEq, List.map_eq_nil_iff, eq_comm]
  | cons attributes rest ih =>
    rw [List.map_eq_cons_iff]
    constructor
    · intro h
      rw [rowsOf] at h
      split at h
      · simp at h
      next row hrow =>
        cases hrest : rowsOf rest with
        | error e => simp [hrest, Except.map] at h
        | ok others =>
          rw [hrest] at h
          exact ⟨row, others, (Except.ok.inj h).symm, rowOf_eq_ok_iff.mp hrow, ih.mp hrest⟩
    · rintro ⟨row, others, rfl, hrow, hrest⟩
      rw [rowsOf, rowOf_eq_ok_iff.mpr hrow, ih.mpr hrest]
      rfl

/-- When what is taken of a batch is written, and with which answer and store. -/
theorem writeBatch_eq_ok_iff {batch undone left : List Fields} : s.writeBatch table batch undone = (.ok left, s') ↔
    left = undone ∧ ∃ rows : List Row, rows.map Row.attributes = batch ∧ (∀ row ∈ rows, s.rejects row.key.id = false) ∧
      s.write table rows = s' := by
  unfold writeBatch
  split
  next e he =>
    simp only [Prod.mk.injEq, reduceCtorEq, false_and, false_iff, not_and, not_exists]
    rintro - rows hrows
    rw [rowsOf_eq_ok_iff.mpr hrows] at he
    exact absurd he (by simp)
  next rows hrows =>
    have hunique : ∀ others : List Row, others.map Row.attributes = batch → others = rows := fun others ho =>
      Except.ok.inj ((rowsOf_eq_ok_iff.mpr ho).symm.trans hrows)
    split
    next row hrow =>
      simp only [Prod.mk.injEq, reduceCtorEq, false_and, false_iff, not_and, not_exists]
      rintro - others ho hnone
      have hrejects : s.rejects row.key.id = true := List.find?_some (p := fun row : Row => s.rejects row.key.id) hrow
      rw [hnone row (hunique others ho ▸ List.mem_of_find?_eq_some hrow)] at hrejects
      exact absurd hrejects Bool.false_ne_true
    next hnone =>
      rw [Prod.mk.injEq, Except.ok.injEq, eq_comm]
      refine and_congr_right fun _ => ⟨fun h => ⟨rows, rowsOf_eq_ok_iff.mp hrows, fun row hrow => ?_, h⟩, ?_⟩
      · exact Bool.eq_false_iff.mpr (List.find?_eq_none.mp hnone row hrow)
      · rintro ⟨others, ho, -, h⟩
        rw [← hunique others ho, h]

/-- When the setting of a time to live succeeds, and with which store. -/
theorem updateTtl_eq_ok_iff {key : Key} {ttl : Int64} : s.updateTtl table key ttl = (.ok (), s') ↔
    s.throttledCalls = 0 ∧ s.rejects key.id = false ∧ (s.get? table key).isSome ∧
      s.withTable table ((s.tableOf table).mark key ttl) = s' := by
  rw [updateTtl, unlessThrottled_eq_ok_iff, get?, Option.isSome_map]
  refine and_congr_right fun _ => ?_
  split_ifs with hrejects hthere
  · simp [hrejects]
  · simp [hrejects, hthere]
  · simp [hthere]

/-- A batch without its last row, and that row. -/
theorem eq_dropLast_iff {α : Type} {batch written undone : List α} :
    (written = batch.dropLast ∧ undone = batch.getLast?.toList) ↔
    batch = written ++ undone ∧ undone.length = min 1 batch.length := by
  rcases List.eq_nil_or_concat batch with rfl | ⟨first, last, rfl⟩
  · simp
  · simp only [List.concat_eq_append, List.dropLast_concat, List.getLast?_concat, Option.toList_some]
    constructor
    · rintro ⟨rfl, rfl⟩
      exact ⟨rfl, by simp⟩
    · rintro ⟨happend, hlength⟩
      have hone : undone.length = [last].length := by
        rw [hlength, List.length_append, List.length_singleton]
        omega
      obtain ⟨rfl, rfl⟩ := List.append_inj' happend hone.symm
      exact ⟨rfl, rfl⟩

/-- When a batch is written, with which answer and store: it is not too large and not throttled, and what is taken of
it is written, which is all of it but for the last row where one is left undone. -/
theorem batchWrite_eq_ok_iff {batch undone : List Fields} : s.batchWrite table batch = (.ok undone, s') ↔
    batch.length ≤ mostWrites ∧ s.throttledCalls = 0 ∧ undone.length = min s.undoneRounds (min 1 batch.length) ∧
      ∃ rows : List Row, batch = rows.map Row.attributes ++ undone ∧ (∀ row ∈ rows, s.rejects row.key.id = false) ∧
        { s with undoneRounds := s.undoneRounds - 1, batchWriteCalls := s.batchWriteCalls + 1 }.write table rows =
          s' := by
  unfold batchWrite
  dsimp only
  split
  next hlarge => simp [Nat.not_le.mpr hlarge]
  next hsmall =>
    rw [unlessThrottled_eq_ok_iff, and_iff_right (Nat.not_lt.mp hsmall)]
    refine and_congr_right fun _ => ?_
    split
    next hdue =>
      have hmin : min s.undoneRounds (min 1 batch.length) = min 1 batch.length := by omega
      rw [writeBatch_eq_ok_iff, hmin]
      constructor
      · rintro ⟨hundone, rows, hrows, hrejects, hwrite⟩
        obtain ⟨happend, hlength⟩ := eq_dropLast_iff.mp ⟨hrows, hundone⟩
        exact ⟨hlength, rows, happend, hrejects, hwrite⟩
      · rintro ⟨hlength, rows, happend, hrejects, hwrite⟩
        obtain ⟨hrows, hundone⟩ := eq_dropLast_iff.mpr ⟨happend, hlength⟩
        exact ⟨hundone, rows, hrows, hrejects, hwrite⟩
    next hdue =>
      have hnone : s.undoneRounds = 0 := Nat.eq_zero_of_not_pos hdue
      rw [writeBatch_eq_ok_iff, hnone, Nat.zero_min, List.length_eq_zero_iff]
      refine and_congr_right ?_
      rintro rfl
      simp only [List.append_nil, eq_comm (a := batch)]
      rfl

/-! ## What a success is, and what it leaves -/

theorem fst_eq_ok_iff {α : Type} {answer : Except GraphError α × Store} {a : α} :
    answer.1 = .ok a ↔ ∃ s', answer = (.ok a, s') :=
  ⟨fun h => ⟨answer.2, by rw [← h]⟩, fun ⟨_, h⟩ => by rw [h]⟩

theorem put_succeeds_iff {condition : PutCondition} :
    (s.put table attributes condition).1 = .ok () ↔
      s.throttledCalls = 0 ∧ s.Takes attributes ∧
        (condition = .ifNotExists → ∀ key, attributes.key? = some key → s.get? table key = none) := by
  rw [fst_eq_ok_iff]
  simp only [put_eq_ok_iff, takes_iff]
  constructor
  · rintro ⟨_, hthrottled, row, rfl, hrejects, hnew, -⟩
    refine ⟨hthrottled, ⟨row, rfl, hrejects⟩, fun hc key hkey => ?_⟩
    rw [row.carries, Option.some.injEq] at hkey
    exact hkey ▸ hnew hc
  · rintro ⟨hthrottled, ⟨row, rfl, hrejects⟩, hnew⟩
    exact ⟨_, hthrottled, row, rfl, hrejects, fun hc => hnew hc _ row.carries, rfl⟩

theorem hasPut_of_put {condition : PutCondition} (h : (s.put table attributes condition).1 = .ok ()) :
    s.HasPut (s.put table attributes condition).2 table [attributes] := by
  obtain ⟨s', hput⟩ := fst_eq_ok_iff.mp h
  obtain ⟨-, row, rfl, -, -, rfl⟩ := put_eq_ok_iff.mp hput
  rw [hput]
  exact s.hasPut_write table [row]

theorem batchWrite_succeeds_iff {batch undone : List Fields} : (s.batchWrite table batch).1 = .ok undone ↔
    batch.length ≤ mostWrites ∧ s.throttledCalls = 0 ∧ undone.length = min s.undoneRounds (min 1 batch.length) ∧
      ∃ written, batch = written ++ undone ∧ ∀ attributes ∈ written, s.Takes attributes := by
  rw [fst_eq_ok_iff]
  simp only [batchWrite_eq_ok_iff, takes_all_iff]
  constructor
  · rintro ⟨_, hsmall, hthrottled, hlength, rows, happend, hrejects, -⟩
    exact ⟨hsmall, hthrottled, hlength, _, happend, rows, rfl, hrejects⟩
  · rintro ⟨hsmall, hthrottled, hlength, _, happend, rows, rfl, hrejects⟩
    exact ⟨_, hsmall, hthrottled, hlength, rows, happend, hrejects, rfl⟩

/-- The counters are no part of the tables, so that the rows are put into the store as it was. -/
theorem hasPut_of_batchWrite {written undone : List Fields}
    (h : (s.batchWrite table (written ++ undone)).1 = .ok undone) :
    s.HasPut (s.batchWrite table (written ++ undone)).2 table written := by
  obtain ⟨s', hwrite⟩ := fst_eq_ok_iff.mp h
  obtain ⟨-, -, -, rows, hrows, -, rfl⟩ := batchWrite_eq_ok_iff.mp hwrite
  obtain rfl : written = rows.map Row.attributes := List.append_cancel_right hrows
  have hput := hasPut_write
    { s with undoneRounds := s.undoneRounds - 1, batchWriteCalls := s.batchWriteCalls + 1 } table rows
  rw [hwrite]
  exact ⟨hput.rows, hput.others⟩

theorem updateTtl_succeeds_iff {key : Key} {ttl : Int64} : (s.updateTtl table key ttl).1 = .ok () ↔
    s.throttledCalls = 0 ∧ s.rejects key.id = false ∧ (s.get? table key).isSome := by
  rw [fst_eq_ok_iff]
  simp only [updateTtl_eq_ok_iff, exists_and_left, exists_eq', and_true]

/-- A time to live that was set stands in the row of its key, and no other row changes. -/
theorem get?_of_updateTtl {key : Key} {ttl : Int64} (h : (s.updateTtl table key ttl).1 = .ok ()) :
    ∃ row : Row, s.get? table key = some row.attributes ∧
      (∀ other, (s.updateTtl table key ttl).2.get? table other =
        if other = key then some (row.withTtl ttl).attributes else s.get? table other) ∧
      ∀ other, other ≠ table → (s.updateTtl table key ttl).2.tableOf other = s.tableOf other := by
  obtain ⟨s', hupdate⟩ := fst_eq_ok_iff.mp h
  obtain ⟨-, -, hthere, rfl⟩ := updateTtl_eq_ok_iff.mp hupdate
  obtain ⟨old, hold⟩ := Option.isSome_iff_exists.mp hthere
  obtain ⟨row, hrow, rfl⟩ := Option.map_eq_some_iff.mp hold
  refine ⟨row, hold, fun other => ?_, fun other ho => ?_⟩
  · rw [hupdate, get?, tableOf_withTable, if_pos rfl, Table.get?_mark, hrow]
    split_ifs <;> rfl
  · rw [hupdate, tableOf_withTable, if_neg ho]

end Store

/-- What requests to write come to. (1) A request that is refused leaves the rows of all tables as they were. (2) A put
succeeds exactly where it is not throttled, its attributes carry a key of a partition that is not rejected, and there
is no row under that key where it must be new; then the attributes are under their key, and nothing else changes. (3) A
batch is written and some of it handed back exactly where it is not too large and not throttled, what is handed back is
its end, namely its last row where a batch is due to be cut short and nothing otherwise, and the rows before may be
put. Those are then under their keys, of several with one key the last, and nothing else changes. (4) The setting of a
time to live succeeds exactly where it is not throttled and there is a row under the key, of a partition that is not
rejected; then that row has the time to live and its other attributes in their order, and nothing else changes. -/
theorem Store.writes_are_whole (s : Store) (table : String) :
    (∀ (r : StoreRequest) (e : GraphError), (r.ask s).1 = .error e → (r.ask s).2.tables = s.tables) ∧
    (∀ (attributes : Fields) (condition : PutCondition),
      ((s.put table attributes condition).1 = .ok () ↔ s.throttledCalls = 0 ∧ s.Takes attributes ∧
        (condition = .ifNotExists → ∀ key, attributes.key? = some key → s.get? table key = none)) ∧
      ((s.put table attributes condition).1 = .ok () →
        s.HasPut (s.put table attributes condition).2 table [attributes])) ∧
    (∀ batch undone : List Fields,
      ((s.batchWrite table batch).1 = .ok undone ↔ batch.length ≤ mostWrites ∧ s.throttledCalls = 0 ∧
        undone.length = min s.undoneRounds (min 1 batch.length) ∧
        ∃ written, batch = written ++ undone ∧ ∀ attributes ∈ written, s.Takes attributes) ∧
      ((s.batchWrite table batch).1 = .ok undone → ∀ written, batch = written ++ undone →
        s.HasPut (s.batchWrite table batch).2 table written)) ∧
    ∀ (key : Key) (ttl : Int64),
      ((s.updateTtl table key ttl).1 = .ok () ↔ s.throttledCalls = 0 ∧ s.rejects key.id = false ∧
        (s.get? table key).isSome) ∧
      ((s.updateTtl table key ttl).1 = .ok () → ∃ old new : Fields,
        s.get? table key = some old ∧ (s.updateTtl table key ttl).2.get? table key = some new ∧
        new.lookup Attribute.ttl = some (.int ttl) ∧
        (new.filter fun entry => entry.1 != Attribute.ttl) = (old.filter fun entry => entry.1 != Attribute.ttl) ∧
        (∀ other, other ≠ key → (s.updateTtl table key ttl).2.get? table other = s.get? table other) ∧
        ∀ other, other ≠ table → (s.updateTtl table key ttl).2.tableOf other = s.tableOf other) := by
  refine ⟨s.spares_ask, fun attributes condition => ⟨put_succeeds_iff, hasPut_of_put⟩,
    fun batch undone => ⟨batchWrite_succeeds_iff, ?_⟩, fun key ttl => ⟨updateTtl_succeeds_iff, fun h => ?_⟩⟩
  · rintro h written rfl
    exact hasPut_of_batchWrite h
  · obtain ⟨row, hrow, hget, hothers⟩ := get?_of_updateTtl h
    exact ⟨row.attributes, (row.withTtl ttl).attributes, hrow, (hget key).trans (if_pos rfl),
      Assoc.lookup_insert_self .., Assoc.filter_insert .., fun other ho => (hget other).trans (if_neg ho), hothers⟩

namespace Sample

/-- What is put for a guest. -/
def guest (id name : String) : Fields :=
  [(Attribute.id, .string id), (Attribute.dataType, .string nodeMarker), ("name", .string name)]

/-- A store that leaves the last row of the next batch undone and takes nothing of mallory. -/
def guestbook : Store := ((Store.empty "edge-dataType").leavingUndone 1).rejecting "mallory"

/-- Gus twice, and Hal. -/
def guests : List Fields := [guest "gus" "Gus", guest "gus" "August", guest "hal" "Hal"]

/-- Gus is put twice in a batch whose last row is left undone: what was put last of him stays, and Hal is handed back
and not there. A batch with Mallory writes nothing, not even Gus. -/
theorem guests_are_put :
    ((guestbook.batchWrite "t" guests).1 = .ok [guest "hal" "Hal"] ∧
      (guestbook.batchWrite "t" guests).2.get? "t" (.node "gus") = some (guest "gus" "August") ∧
      (guestbook.batchWrite "t" guests).2.get? "t" (.node "hal") = none) ∧
    (guestbook.batchWrite "t" (guest "gus" "Gus" :: guest "mallory" "M" :: guests)).2.tables = guestbook.tables := by
  obtain ⟨hrefused, -, hbatch, -⟩ := guestbook.writes_are_whole "t"
  have hwritten : (guestbook.batchWrite "t" guests).1 = .ok [guest "hal" "Hal"] :=
    (hbatch _ _).1.mpr ⟨by decide, rfl, rfl, [guest "gus" "Gus", guest "gus" "August"], rfl,
      List.forall_mem_cons.mpr ⟨⟨.node "gus", rfl, rfl⟩, List.forall_mem_singleton.mpr ⟨.node "gus", rfl, rfl⟩⟩⟩
  have hput := (hbatch _ _).2 hwritten [guest "gus" "Gus", guest "gus" "August"] rfl
  exact ⟨⟨hwritten, (hput.rows (.node "gus")).trans rfl, (hput.rows (.node "hal")).trans rfl⟩,
    hrefused (.batchWrite "t" (guest "gus" "Gus" :: guest "mallory" "M" :: guests))
      (.store (.writeRejected "mallory")) rfl⟩

end Sample

end PropertyGraph
