import PropertyGraph.Proofs.StoredRows
import PropertyGraph.Proofs.Walk
import PropertyGraph.Proofs.Writing

/-!
# Marking rows

To mark rows changes nothing but their times to live (`Table.markWhere`), so that a query comes to the same rows as
before. Which rows are marked under faults is known beforehand: a throttled request costs one row, a rejected partition
all of its rows, and every other row is marked (`markRows_eq`); each row that is not marked is one error. Queries that
come between make no difference (`markRows_queried`).
-/

namespace PropertyGraph

/-! ## Marked rows -/

theorem Row.withTtl_withTtl (row : Row) (old new : Int64) : (row.withTtl old).withTtl new = row.withTtl new :=
  Row.eq_of_attributes (Assoc.insert_insert ..)

namespace Table

/-- The table in which the rows that pass a test have a time to live. -/
def markWhere (t : Table) (p : Row → Bool) (ttl : Int64) : Table where
  rows := t.rows.map fun row => if p row then row.withTtl ttl else row
  ascending := by
    have hkey : ∀ row : Row, (if p row then row.withTtl ttl else row).key = row.key := by
      intro row
      split <;> rfl
    exact List.pairwise_map.mpr (t.ascending.imp fun {a b} h => by rw [hkey a, hkey b]; exact h)

theorem rows_markWhere (t : Table) (p : Row → Bool) (ttl : Int64) :
    (t.markWhere p ttl).rows = t.rows.map fun row => if p row then row.withTtl ttl else row :=
  rfl

variable {t : Table} {p q : Row → Bool} {ttl : Int64}

/-- A row is there after marking where it was there, with the time to live where it passes the test. -/
theorem mem_markWhere {row : Row} :
    row ∈ (t.markWhere p ttl).rows ↔ ∃ old ∈ t.rows, (if p old then old.withTtl ttl else old) = row :=
  List.mem_map

theorem markWhere_congr (h : ∀ row ∈ t.rows, p row = q row) : t.markWhere p ttl = t.markWhere q ttl :=
  eq_of_rows (List.map_congr_left fun row hrow => by rw [h row hrow])

/-- Marking by one test and then by another is marking by either. -/
theorem markWhere_markWhere (t : Table) (p q : Row → Bool) (ttl : Int64) :
    (t.markWhere p ttl).markWhere q ttl = t.markWhere (fun row => p row || q row) ttl := by
  refine eq_of_rows ?_
  rw [rows_markWhere, rows_markWhere, rows_markWhere, List.map_map]
  refine List.map_congr_left fun row _ => ?_
  rw [Function.comp_apply]
  cases p row with
  | true =>
    rw [if_pos rfl, Bool.true_or, if_pos rfl, Row.withTtl_withTtl]
    exact ite_self _
  | false => rw [if_neg Bool.false_ne_true, Bool.false_or]

theorem markWhere_eq_self (h : ∀ row ∈ t.rows, p row = false) : t.markWhere p ttl = t := by
  refine eq_of_rows ?_
  rw [rows_markWhere]
  refine (List.map_congr_left fun row hrow => ?_).trans (List.map_id t.rows)
  rw [h row hrow]
  rfl

/-- Marking a key is marking the rows of that key. -/
theorem mark_eq_markWhere (t : Table) (key : Key) (ttl : Int64) :
    t.mark key ttl = t.markWhere (fun row => row.key = key) ttl := by
  refine eq_of_rows ?_
  rw [mark, rows_markWhere]
  refine List.map_congr_left fun row _ => ?_
  by_cases h : row.key = key
  · rw [if_pos h, if_pos (decide_eq_true h)]
  · rw [if_neg h, if_neg (by rw [decide_eq_false h]; exact Bool.false_ne_true)]

/-- A query comes to the same rows of a table as before where it comes to none that was marked. -/
theorem ahead_markWhere {r : Query} {start : Option (List String)} (h : ∀ row ∈ t.ahead r .table start, p row = false)
    (ttl : Int64) : (t.markWhere p ttl).ahead r .table start = t.ahead r .table start := by
  have hreaches : (r.reaches .table start ∘ fun row => if p row then row.withTtl ttl else row) =
      r.reaches .table start := by
    funext row
    rw [Function.comp_apply]
    split
    · rw [Query.reaches, Query.reaches, StoreAux.position?_withTtl]
    · rfl
  rw [ahead] at h ⊢
  rw [ahead, rows_markWhere, List.filter_map, hreaches]
  refine (List.map_congr_left fun row hrow => ?_).trans (List.map_id _)
  rw [h row hrow]
  rfl

end Table

/-- Whether a row has the key of one of some rows. -/
def Row.isAmong (rows : List Row) (row : Row) : Bool := rows.any fun r => row.key = r.key

/-- Among rows of a table a row of the table is where it is one of them. -/
theorem Row.isAmong_iff {t : Table} {rows : List Row} (h : ∀ r ∈ rows, r ∈ t.rows) {row : Row} (hrow : row ∈ t.rows) :
    row.isAmong rows = true ↔ row ∈ rows := by
  rw [isAmong, List.any_eq_true]
  constructor
  · rintro ⟨r, hr, hkey⟩
    rw [Table.eq_of_key hrow (h r hr) (of_decide_eq_true hkey)]
    exact hr
  · intro hmem
    exact ⟨row, hmem, decide_eq_true rfl⟩

/-! ## Marking in a store -/

/-- Whether a store came from another one by giving a time to live to the rows of a table that pass a test, where some
requests may have been throttled. -/
structure Store.HasMarked (s s' : Store) (table : String) (p : Row → Bool) (ttl : Int64) : Prop where
  index : s'.indexName = s.indexName
  throttled : s'.throttledCalls ≤ s.throttledCalls
  rejected : s'.failingIds = s.failingIds
  undone : s'.undoneRounds = s.undoneRounds
  marked : s'.tableOf table = (s.tableOf table).markWhere p ttl
  others : ∀ other, other ≠ table → s'.tableOf other = s.tableOf other

/-- Whether a store came from another one by giving a time to live to the rows of a table that pass a test. Neither
meets faults. -/
structure Store.Marks (s s' : Store) (table : String) (p : Row → Bool) (ttl : Int64) : Prop where
  faultless : s'.IsFaultless
  index : s'.indexName = s.indexName
  marked : s'.tableOf table = (s.tableOf table).markWhere p ttl
  others : ∀ other, other ≠ table → s'.tableOf other = s.tableOf other

namespace Store

variable {s s' s'' : Store} {table : String} {p q : Row → Bool} {ttl : Int64}

namespace HasMarked

theorem refl (hp : ∀ row ∈ (s.tableOf table).rows, p row = false) : s.HasMarked s table p ttl :=
  ⟨rfl, Nat.le_refl _, rfl, rfl, (Table.markWhere_eq_self hp).symm, fun _ _ => rfl⟩

/-- Marking by one test and then by another. -/
theorem trans (h : s.HasMarked s' table p ttl) (h' : s'.HasMarked s'' table q ttl) :
    s.HasMarked s'' table (fun row => p row || q row) ttl where
  index := h'.index.trans h.index
  throttled := Nat.le_trans h'.throttled h.throttled
  rejected := h'.rejected.trans h.rejected
  undone := h'.undone.trans h.undone
  marked := by rw [h'.marked, h.marked, Table.markWhere_markWhere]
  others other ho := (h'.others other ho).trans (h.others other ho)

theorem congr (h : s.HasMarked s' table p ttl) (hpq : ∀ row ∈ (s.tableOf table).rows, p row = q row) :
    s.HasMarked s' table q ttl :=
  { h with marked := h.marked.trans (Table.markWhere_congr hpq) }

/-- A marking after a throttled request is one from the store that was met throttled. -/
theorem of_throttled {left : Nat} (hleft : s.throttledCalls = left + 1)
    (h : HasMarked { s with throttledCalls := left } s' table p ttl) : s.HasMarked s' table p ttl :=
  { h with throttled := Nat.le_trans h.throttled (hleft ▸ Nat.le_succ left) }

theorem queried (h : s.HasMarked s' table p ttl) (h' : s'.OnlyQueried s'') : s.HasMarked s'' table p ttl := by
  obtain ⟨calls, rfl⟩ := h'
  exact ⟨h.index, h.throttled, h.rejected, h.undone, h.marked, h.others⟩

/-- A key that was there before the marking is there after it. -/
theorem exists_key (h : s.HasMarked s' table p ttl) {key : Key} (hkey : ∃ row ∈ (s.tableOf table).rows, row.key = key) :
    ∃ row ∈ (s'.tableOf table).rows, row.key = key := by
  obtain ⟨row, hrow, rfl⟩ := hkey
  rw [h.marked]
  refine ⟨_, Table.mem_markWhere.mpr ⟨row, hrow, rfl⟩, ?_⟩
  split <;> rfl

/-- A store without faults still has none after the marking. -/
theorem faultless (h : s.HasMarked s' table p ttl) (hs : s.IsFaultless) : s'.IsFaultless where
  throttled := Nat.eq_zero_of_le_zero (hs.throttled ▸ h.throttled)
  undone := h.undone.trans hs.undone
  rejected := h.rejected.trans hs.rejected

end HasMarked

/-- What the setting of a time to live comes to for a key that is there: it is throttled, or rejected, or it succeeds.
-/
theorem updateTtl_cases (s : Store) (ttl : Int64) {key : Key} (hkey : ∃ row ∈ (s.tableOf table).rows, row.key = key) :
    (∃ left, s.throttledCalls = left + 1 ∧
      s.updateTtl table key ttl = (.error .throttled, { s with throttledCalls := left })) ∨
    (s.throttledCalls = 0 ∧ s.rejects key.id = true ∧
      s.updateTtl table key ttl = (.error (.store (.writeRejected key.id)), s)) ∨
    (s.throttledCalls = 0 ∧ s.rejects key.id = false ∧
      ∃ s', s.updateTtl table key ttl = (.ok (), s') ∧ s'.throttledCalls = 0 ∧
      s.HasMarked s' table (fun row => row.key = key) ttl) := by
  obtain ⟨row, hrow, rfl⟩ := hkey
  unfold updateTtl unlessThrottled
  cases hthrottled : s.throttledCalls with
  | succ left => exact Or.inl ⟨left, rfl, rfl⟩
  | zero =>
    refine Or.inr ?_
    rw [if_neg (Nat.lt_irrefl 0)]
    cases hrejects : s.rejects row.key.id with
    | true => exact Or.inl ⟨rfl, rfl, rfl⟩
    | false =>
      refine Or.inr ⟨rfl, rfl, s.withTable table ((s.tableOf table).mark row.key ttl), ?_, hthrottled, rfl,
        Nat.le_refl _, rfl, rfl, ?_, ?_⟩
      · simp [Table.get?_of_mem hrow]
      · rw [tableOf_withTable, if_pos rfl, Table.mark_eq_markWhere]
      · intro other ho
        rw [tableOf_withTable, if_neg ho]

/-- Queries that came before make no difference to the setting of a time to live. -/
theorem updateTtl_queried (s : Store) (calls : Nat) (table : String) (key : Key) (ttl : Int64) :
    { s with queryCalls := calls }.updateTtl table key ttl =
      ((s.updateTtl table key ttl).1, { (s.updateTtl table key ttl).2 with queryCalls := calls }) := by
  have hrejects : { s with queryCalls := calls }.rejects key.id = s.rejects key.id := rfl
  have htable : { s with queryCalls := calls }.tableOf table = s.tableOf table := rfl
  unfold updateTtl unlessThrottled
  rw [hrejects, htable]
  split_ifs <;> rfl

/-- Which rows of a list are marked under the faults that are due: those behind the throttled requests, where markings
are not rejected. -/
def markable (s : Store) (rows : List Row) : List Row :=
  (rows.drop s.throttledCalls).filter fun row => !s.rejects row.key.id

/-- What goes wrong with the other rows of the list. -/
def refusals (s : Store) (rows : List Row) : List GraphError :=
  (rows.take s.throttledCalls).map (fun _ => .throttled) ++
    ((rows.drop s.throttledCalls).filter fun row => s.rejects row.key.id).map
      fun row => .store (.writeRejected row.key.id)

theorem markable_subset (s : Store) (rows : List Row) : s.markable rows ⊆ rows := by
  intro row hrow
  exact List.mem_of_mem_drop (List.mem_filter.mp hrow).1

/-- Every row of the list is marked or goes wrong. -/
theorem length_markable_add_refusals (s : Store) (rows : List Row) :
    (s.markable rows).length + (s.refusals rows).length = rows.length := by
  have hsplit := (rows.drop s.throttledCalls).length_eq_countP_add_countP fun row => s.rejects row.key.id
  simp only [markable, refusals, List.length_append, List.length_map, ← List.countP_eq_length_filter, List.length_take,
    Bool.not_eq_true, List.length_drop, Bool.decide_eq_false] at hsplit ⊢
  omega

/-- Where nothing goes wrong all rows of the list are marked. -/
theorem markable_of_refusals_nil {rows : List Row} (h : s.refusals rows = []) : s.markable rows = rows := by
  obtain ⟨hnone, hopen⟩ := List.append_eq_nil_iff.mp h
  have hall : rows.drop s.throttledCalls = rows := by
    rcases List.take_eq_nil_iff.mp (List.map_eq_nil_iff.mp hnone) with hzero | hempty
    · rw [hzero, List.drop_zero]
    · rw [hempty, List.drop_nil]
  rw [hall, List.map_eq_nil_iff, List.filter_eq_nil_iff] at hopen
  rw [markable, hall, List.filter_eq_self]
  intro row hrow
  rw [Bool.eq_false_iff.mpr (hopen row hrow)]
  rfl

theorem rejects_congr (h : s'.failingIds = s.failingIds) (id : String) : s'.rejects id = s.rejects id := by
  rw [rejects, h, rejects]

theorem markable_cons_of_throttled {left : Nat} (h : s.throttledCalls = left + 1) (row : Row) (rest : List Row) :
    s.markable (row :: rest) = markable { s with throttledCalls := left } rest := by
  rw [markable, h]
  rfl

/-- A row that is met throttled leaves one throttled request less for the rest. -/
theorem refusals_cons_of_throttled {left : Nat} (h : s.throttledCalls = left + 1) (row : Row) (rest : List Row) :
    s.refusals (row :: rest) = .throttled :: refusals { s with throttledCalls := left } rest := by
  rw [refusals, h]
  rfl

theorem markable_cons_of_rejected (hthrottled : s.throttledCalls = 0) {row : Row} (h : s.rejects row.key.id = true)
    (rest : List Row) : s.markable (row :: rest) = s.markable rest := by
  simp [markable, hthrottled, h]

theorem refusals_cons_of_rejected (hthrottled : s.throttledCalls = 0) {row : Row} (h : s.rejects row.key.id = true)
    (rest : List Row) : s.refusals (row :: rest) = .store (.writeRejected row.key.id) :: s.refusals rest := by
  simp [refusals, hthrottled, h]

/-- Behind a row that is marked the same ids are rejected. -/
theorem markable_cons_of_marked (hthrottled : s.throttledCalls = 0) (hthrottled' : s'.throttledCalls = 0)
    (hrejected : s'.failingIds = s.failingIds) {row : Row} (h : s.rejects row.key.id = false) (rest : List Row) :
    s.markable (row :: rest) = row :: s'.markable rest := by
  simp [markable, hthrottled, hthrottled', h, rejects_congr hrejected]

theorem refusals_cons_of_marked (hthrottled : s.throttledCalls = 0) (hthrottled' : s'.throttledCalls = 0)
    (hrejected : s'.failingIds = s.failingIds) {row : Row} (h : s.rejects row.key.id = false) (rest : List Row) :
    s.refusals (row :: rest) = s'.refusals rest := by
  simp [refusals, hthrottled, hthrottled', h, rejects_congr hrejected]

theorem refusals_eq_nil (hthrottled : s.throttledCalls = 0) (hrejected : s.failingIds = []) (rows : List Row) :
    s.refusals rows = [] := by
  simp [refusals, hthrottled, rejects, hrejected]

end Store

theorem markRows_cons {s middle s' : Store} {table : String} {ttl : Int64} {row : Row} {rest : List Row}
    {answer : Except GraphError Unit} {deleted : Deleted} (hupdate : s.updateTtl table row.key ttl = (answer, middle))
    (hrest : markRows middle table ttl rest = (deleted, s')) :
    markRows s table ttl (row :: rest) = ((Deleted.ofAnswer answer).append deleted, s') := by
  rw [markRows, Store.storage_updateTtl, hupdate]
  dsimp only
  rw [hrest]

/-- The marking of rows whose keys are there: those are marked that the faults spare, and each other one is an error.
Each row that is met throttled leaves one throttled request less for the rest. -/
theorem markRows_eq {s : Store} {table : String} (ttl : Int64) {rows : List Row}
    (hrows : ∀ row ∈ rows, ∃ old ∈ (s.tableOf table).rows, old.key = row.key) :
    ∃ s', markRows s table ttl rows = (⟨(s.markable rows).length, s.refusals rows⟩, s') ∧
      s.HasMarked s' table (Row.isAmong (s.markable rows)) ttl := by
  induction rows generalizing s with
  | nil =>
    exact ⟨s, by simp [markRows, Store.markable, Store.refusals],
      .refl fun _ _ => by simp [Store.markable, Row.isAmong]⟩
  | cons row rest ih =>
    have hrest : ∀ r ∈ rest, ∃ old ∈ (s.tableOf table).rows, old.key = r.key :=
      fun r hr => hrows r (List.mem_cons_of_mem _ hr)
    rcases s.updateTtl_cases ttl (hrows row (List.mem_cons_self ..)) with
      ⟨left, hleft, hupdate⟩ | ⟨hzero, hrejects, hupdate⟩ | ⟨hzero, hrejects, middle, hupdate, hnone, hmarks⟩
    · obtain ⟨s', hmark, hrestMarks⟩ := ih (s := { s with throttledCalls := left }) hrest
      rw [s.markable_cons_of_throttled hleft, s.refusals_cons_of_throttled hleft]
      refine ⟨s', ?_, hrestMarks.of_throttled hleft⟩
      rw [markRows_cons hupdate hmark, Deleted.append, Deleted.ofAnswer, Nat.zero_add]
      rfl
    · obtain ⟨s', hmark, hrestMarks⟩ := ih hrest
      rw [s.markable_cons_of_rejected hzero hrejects, s.refusals_cons_of_rejected hzero hrejects]
      refine ⟨s', ?_, hrestMarks⟩
      rw [markRows_cons hupdate hmark, Deleted.append, Deleted.ofAnswer, Nat.zero_add]
      rfl
    · obtain ⟨s', hmark, hrestMarks⟩ := ih fun r hr => hmarks.exists_key (hrest r hr)
      rw [s.markable_cons_of_marked hzero hnone hmarks.rejected hrejects,
        s.refusals_cons_of_marked hzero hnone hmarks.rejected hrejects]
      refine ⟨s', ?_, (hmarks.trans hrestMarks).congr fun other _ => by rw [Row.isAmong, Row.isAmong, List.any_cons]⟩
      rw [markRows_cons hupdate hmark, Deleted.append, Deleted.ofAnswer, List.length_cons, Nat.add_comm]
      rfl

/-- To mark rows is to mark the first of them and then the others. -/
theorem markRows_append (s : Store) (table : String) (ttl : Int64) (first others : List Row) :
    markRows s table ttl (first ++ others) =
      (let marked := markRows s table ttl first
       let rest := markRows marked.2 table ttl others
       (marked.1.append rest.1, rest.2)) := by
  induction first generalizing s with
  | nil => simp [markRows, Deleted.append]
  | cons row rest ih => simp [markRows, ih, Deleted.append, Nat.add_assoc]

/-- Queries that came before make no difference to the marking of rows. -/
theorem markRows_queried {s s' : Store} (h : s.OnlyQueried s') (table : String) (ttl : Int64) (rows : List Row) :
    (markRows s' table ttl rows).1 = (markRows s table ttl rows).1 ∧
      (markRows s table ttl rows).2.OnlyQueried (markRows s' table ttl rows).2 := by
  induction rows generalizing s s' with
  | nil => exact ⟨rfl, h⟩
  | cons row rest ih =>
    obtain ⟨calls, rfl⟩ := h
    obtain ⟨hdeleted, hstore⟩ := ih (s := (s.updateTtl table row.key ttl).2) ⟨calls, rfl⟩
    rw [markRows, markRows, Store.storage_updateTtl, Store.storage_updateTtl, s.updateTtl_queried calls]
    exact ⟨congrArg (Deleted.ofAnswer (s.updateTtl table row.key ttl).1).append hdeleted, hstore⟩

end PropertyGraph
