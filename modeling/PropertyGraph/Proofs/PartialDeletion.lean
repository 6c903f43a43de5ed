import PropertyGraph.Proofs.SingularPath

/-!
# Deletions under faults

A row that a deletion should mark is marked or is an error, and no other row changes; so what is counted and what went
wrong add up to the rows that should be marked (`softDelete_accounts`). To delete several entities is to mark rows that
one of these deletions should mark (`Row.isDeletedByAny`), and all of them where nothing goes wrong: a row that is
marked once is not marked again, so that an id which is named twice counts once (`softDeleteMany_marks`,
`softDeleteMany_marks_all`).
-/

namespace PropertyGraph

/-! ## Rows that should be marked -/

/-- Whether one of several deletions marks a row. -/
def Row.isDeletedByAny (ids : List String) (ttl now : Int64) (row : Row) : Bool :=
  ids.any fun id => row.isDeletedBy id ttl now

theorem le_max_of_times (a b : Int64) : a ≤ max a b := by
  rcases max_eq_or a b with hmax | ⟨hmax, hle⟩
  · rw [hmax]
    exact Std.le_refl a
  · rw [hmax]
    exact hle

namespace Row

variable {row : Row} {id : String} {ids ids' : List String} {ttl now : Int64}

theorem ttl_withTtl (row : Row) (ttl : Int64) :
    ((row.withTtl ttl).attributes.lookup Attribute.ttl).bind Value.int? = some ttl := by
  rw [withTtl, Assoc.lookup_insert_self]
  rfl

/-- A deletion that writes no earlier time to live than that of a row does not mark the row. -/
theorem isDeletedBy_withTtl (row : Row) (id : String) {written : Int64} (hle : written ≤ max ttl now) :
    (row.withTtl written).isDeletedBy id ttl now = false := by
  rw [isDeletedBy, ttl_withTtl]
  dsimp only
  rw [decide_eq_false (Std.not_lt.mpr hle), Bool.and_false]

theorem withTtl_ne_of_isDeletedBy (h : row.isDeletedBy id ttl now = true) : row.withTtl ttl ≠ row := by
  intro hsame
  have hmarked := row.isDeletedBy_withTtl id (le_max_of_times ttl now)
  rw [hsame, h] at hmarked
  exact absurd hmarked.symm Bool.false_ne_true

/-- No deletion marks a row again that one of them has marked. -/
theorem isDeletedByAny_withTtl (row : Row) (ids : List String) (ttl now : Int64) :
    (row.withTtl ttl).isDeletedByAny ids ttl now = false := by
  rw [isDeletedByAny, List.any_eq_false]
  intro id _
  rw [row.isDeletedBy_withTtl id (le_max_of_times ttl now)]
  exact Bool.false_ne_true

/-- The order and the number of times in which ids are named make no difference. -/
theorem isDeletedByAny_congr (h : ∀ id, id ∈ ids ↔ id ∈ ids') (ttl now : Int64) :
    Row.isDeletedByAny ids ttl now = Row.isDeletedByAny ids' ttl now := by
  funext row
  rw [isDeletedByAny, isDeletedByAny, Bool.eq_iff_iff, List.any_eq_true, List.any_eq_true]
  exact exists_congr fun id => and_congr_left fun _ => h id

end Row

/-- What passes one of two tests is what passes the first and what passes the second alone. -/
theorem countP_or {α : Type} (p q : α → Bool) (l : List α) :
    l.countP (fun a => p a || q a) = l.countP p + l.countP fun a => q a && !p a := by
  rw [l.countP_eq_countP_filter_add _ p, List.countP_filter, List.countP_filter]
  congr 1 <;> refine List.countP_congr fun a _ => ?_
  · cases p a <;> cases q a <;> decide
  · cases p a <;> cases q a <;> decide

/-! ## Marked rows -/

namespace Store

variable {s : Store} {t : Table} {p : Row → Bool}

/-- What is marked of the rows of a table that pass a test passes it. -/
theorem passes_of_isAmong_markable {row : Row} (hrow : row ∈ t.rows)
    (h : row.isAmong (s.markable (t.rows.filter p)) = true) : p row = true := by
  have hin : ∀ r ∈ s.markable (t.rows.filter p), r ∈ t.rows ∧ p r = true :=
    fun r hr => List.mem_filter.mp (s.markable_subset _ hr)
  exact (hin row ((Row.isAmong_iff (fun r hr => (hin r hr).1) hrow).mp h)).2

/-- As many rows of a table are marked as there are to be marked. -/
theorem countP_isAmong_markable (s : Store) (t : Table) (p : Row → Bool) :
    t.rows.countP (Row.isAmong (s.markable (t.rows.filter p))) = (s.markable (t.rows.filter p)).length := by
  have hin : ∀ r ∈ s.markable (t.rows.filter p), r ∈ t.rows :=
    fun r hr => (List.mem_filter.mp (s.markable_subset _ hr)).1
  have hnodup : (s.markable (t.rows.filter p)).Nodup :=
    ((t.nodup_rows.filter p).sublist (List.drop_sublist ..)).filter _
  have hperm : (t.rows.filter (Row.isAmong (s.markable (t.rows.filter p)))).Perm (s.markable (t.rows.filter p)) := by
    refine (List.perm_ext_iff_of_nodup (t.nodup_rows.filter _) hnodup).mpr fun row => ?_
    rw [List.mem_filter]
    exact ⟨fun h => (Row.isAmong_iff hin h.1).mp h.2, fun h => ⟨hin row h, (Row.isAmong_iff hin (hin row h)).mpr h⟩⟩
  rw [List.countP_eq_length_filter, hperm.length_eq]

end Store

/-! ## Several deletions -/

section several

variable {s : Store} {table : String} {pageLimit : Nat} {ttl now : Int64} {ids : List String}

theorem softDeleteMany_singleton (s : Store) (table : String) (pageLimit : Nat) (ttl now : Int64) (id : String) :
    softDeleteMany s table pageLimit ttl now [id] = softDelete s table pageLimit id ttl now := by
  simp [softDeleteMany, Deleted.append]

/-- To delete entities marks, whatever faults are due, only rows that one of these deletions should mark: a row that
the first deletion left is met as it is by the others. -/
theorem softDeleteMany_marks (s : Store) (table : String) (hl : 0 < pageLimit) (ttl now : Int64) (ids : List String) :
    ∃ marked, s.HasMarked (softDeleteMany s table pageLimit ttl now ids).2 table marked ttl ∧
      ∀ row ∈ (s.tableOf table).rows, marked row = true → row.isDeletedByAny ids ttl now = true := by
  induction ids generalizing s with
  | nil => exact ⟨fun _ => false, .refl fun _ _ => rfl, fun _ _ h => absurd h Bool.false_ne_true⟩
  | cons id rest ih =>
    obtain ⟨middle, hdelete, hfirst⟩ := softDelete_marks s table hl id ttl now
    obtain ⟨marked, hothers, hrest⟩ := ih middle
    have hcons : (softDeleteMany s table pageLimit ttl now (id :: rest)).2 =
        (softDeleteMany middle table pageLimit ttl now rest).2 := by
      rw [softDeleteMany, hdelete]
    refine ⟨_, hcons ▸ hfirst.trans hothers, fun row hrow hmarked => ?_⟩
    rw [Row.isDeletedByAny, List.any_cons, Bool.or_eq_true]
    rcases hnow : row.isAmong (s.markable ((s.tableOf table).rows.filter (Row.isDeletedBy id ttl now))) with - | -
    · rw [hnow, Bool.false_or] at hmarked
      have hthere : row ∈ (middle.tableOf table).rows := by
        rw [hfirst.marked]
        exact Table.mem_markWhere.mpr ⟨row, hrow, by rw [hnow, if_neg Bool.false_ne_true]⟩
      exact Or.inr (hrest row hthere hmarked)
    · exact Or.inl (Store.passes_of_isAmong_markable hrow hnow)

/-- To delete entities where nothing goes wrong marks all rows that one of these deletions should mark, and counts each
of them once. -/
theorem softDeleteMany_marks_all (hl : 0 < pageLimit)
    (h : (softDeleteMany s table pageLimit ttl now ids).1.errors = []) :
    ∃ s', softDeleteMany s table pageLimit ttl now ids =
      (⟨(s.tableOf table).rows.countP (Row.isDeletedByAny ids ttl now), []⟩, s') ∧
      s.HasMarked s' table (Row.isDeletedByAny ids ttl now) ttl := by
  induction ids generalizing s with
  | nil =>
    have hnone : (s.tableOf table).rows.countP (Row.isDeletedByAny [] ttl now) = 0 :=
      List.countP_eq_zero.mpr fun _ _ => Bool.false_ne_true
    exact ⟨s, by rw [softDeleteMany, hnone], .refl fun _ _ => rfl⟩
  | cons id rest ih =>
    have herrors : (softDelete s table pageLimit id ttl now).1.errors = [] ∧
        (softDeleteMany (softDelete s table pageLimit id ttl now).2 table pageLimit ttl now rest).1.errors = [] :=
      List.append_eq_nil_iff.mp h
    obtain ⟨middle, hdelete, hfirst⟩ := softDelete_marks_all hl herrors.1
    rw [hdelete] at herrors
    obtain ⟨s', hmany, hothers⟩ := ih herrors.2
    refine ⟨s', ?_, hfirst.trans hothers⟩
    have hleft : (middle.tableOf table).rows.countP (Row.isDeletedByAny rest ttl now) =
        (s.tableOf table).rows.countP fun row => row.isDeletedByAny rest ttl now && !row.isDeletedBy id ttl now := by
      rw [hfirst.marked, Table.rows_markWhere, List.countP_map]
      refine List.countP_congr fun row _ => ?_
      rw [Function.comp_apply]
      cases hnow : row.isDeletedBy id ttl now with
      | true => rw [if_pos rfl, row.isDeletedByAny_withTtl, Bool.not_true, Bool.and_false]
      | false => rw [if_neg Bool.false_ne_true, Bool.not_false, Bool.and_true]
    rw [softDeleteMany, hdelete]
    dsimp only
    rw [hmany, Deleted.append, hleft, ← countP_or]
    rfl

/-- To delete entities none of whose rows should be marked reports nothing and changes no table, whatever faults are
due. -/
theorem softDeleteMany_marks_none (hl : 0 < pageLimit)
    (hnone : ∀ row ∈ (s.tableOf table).rows, row.isDeletedByAny ids ttl now = false) :
    (softDeleteMany s table pageLimit ttl now ids).1 = ⟨0, []⟩ ∧
      ∀ other, (softDeleteMany s table pageLimit ttl now ids).2.tableOf other = s.tableOf other := by
  induction ids generalizing s with
  | nil => exact ⟨rfl, fun _ => rfl⟩
  | cons id rest ih =>
    have hsplit : ∀ row ∈ (s.tableOf table).rows, row.isDeletedBy id ttl now = false ∧
        row.isDeletedByAny rest ttl now = false :=
      fun row hrow => Bool.or_eq_false_iff.mp (hnone row hrow)
    have hempty : (s.tableOf table).rows.filter (Row.isDeletedBy id ttl now) = [] :=
      List.filter_eq_nil_iff.mpr fun row hrow => Bool.eq_false_iff.mp (hsplit row hrow).1
    obtain ⟨middle, hdelete, hmarks⟩ := softDelete_marks s table hl id ttl now
    have hkept : middle.tableOf table = s.tableOf table := by
      rw [hmarks.marked, Table.markWhere_eq_self]
      intro row _
      rw [hempty]
      simp [Store.markable, Row.isAmong]
    obtain ⟨hdeleted, htables⟩ := ih (s := middle) fun row hrow => (hsplit row (hkept ▸ hrow)).2
    rw [hempty] at hdelete
    rw [softDeleteMany, hdelete]
    refine ⟨by simp [hdeleted, Deleted.append, Store.markable, Store.refusals], fun other => (htables other).trans ?_⟩
    by_cases ho : other = table
    · rw [ho, hkept]
    · rw [hmarks.others other ho]

/-- Without throttled requests and rejected partitions nothing goes wrong when entities are deleted. -/
theorem softDeleteMany_errors (hl : 0 < pageLimit) (hthrottled : s.throttledCalls = 0) (hrejected : s.failingIds = [])
    (ids : List String) : (softDeleteMany s table pageLimit ttl now ids).1.errors = [] := by
  induction ids generalizing s with
  | nil => rfl
  | cons id rest ih =>
    obtain ⟨middle, hdelete, hmarks⟩ := softDelete_marks s table hl id ttl now
    have hzero : middle.throttledCalls = 0 := Nat.eq_zero_of_le_zero (hthrottled ▸ hmarks.throttled)
    rw [Store.refusals_eq_nil hthrottled hrejected] at hdelete
    rw [softDeleteMany, hdelete]
    exact ih hzero (hmarks.rejected.trans hrejected)

end several

/-! ## What a deletion accounts for -/

/-- A deletion accounts for every row that it should mark, whatever faults are due. (1) Whatever the size of its pages
is, it gives the time to live to the same rows, changes nothing else, and answers the same; what it marks it should
mark, and changes; what it counts are the rows that it changes; these and the errors add up to the rows that it should
mark. Where no request is throttled and no partition is rejected it marks all of these. (2) Then to delete several
entities reports no error, marks the rows that one of these deletions should mark and counts them. (3) Then neither the
order in which ids are named nor their repetition makes a difference. -/
theorem softDelete_accounts (s : Store) (table : String) (ttl now : Int64) :
    (∀ id, ∃ (deleted : Deleted) (marked : Row → Bool),
      (∀ pageLimit, 0 < pageLimit → ∃ s', softDelete s table pageLimit id ttl now = (deleted, s') ∧
        s'.tableOf table = (s.tableOf table).markWhere marked ttl ∧
        ∀ other, other ≠ table → s'.tableOf other = s.tableOf other) ∧
      (∀ row ∈ (s.tableOf table).rows, marked row = true → row.isDeletedBy id ttl now = true ∧ row.withTtl ttl ≠ row) ∧
      deleted.count = (s.tableOf table).rows.countP marked ∧
      deleted.count + deleted.errors.length = (s.tableOf table).rows.countP (Row.isDeletedBy id ttl now) ∧
      (s.throttledCalls = 0 → s.failingIds = [] → ∀ row ∈ (s.tableOf table).rows, row.isDeletedBy id ttl now = true →
        marked row = true)) ∧
    (s.throttledCalls = 0 → s.failingIds = [] → ∀ (ids : List String) (pageLimit : Nat), 0 < pageLimit →
      (∃ s', softDeleteMany s table pageLimit ttl now ids =
        (⟨(s.tableOf table).rows.countP (Row.isDeletedByAny ids ttl now), []⟩, s') ∧
        s'.tableOf table = (s.tableOf table).markWhere (Row.isDeletedByAny ids ttl now) ttl ∧
        ∀ other, other ≠ table → s'.tableOf other = s.tableOf other) ∧
      ∀ ids' : List String, (∀ id, id ∈ ids ↔ id ∈ ids') →
        (softDeleteMany s table pageLimit ttl now ids').1 = (softDeleteMany s table pageLimit ttl now ids).1 ∧
          ∀ other, (softDeleteMany s table pageLimit ttl now ids').2.tableOf other =
            (softDeleteMany s table pageLimit ttl now ids).2.tableOf other) := by
  constructor
  · intro id
    let due := (s.tableOf table).rows.filter (Row.isDeletedBy id ttl now)
    refine ⟨⟨(s.markable due).length, s.refusals due⟩, Row.isAmong (s.markable due),
      fun pageLimit hl => ?_, fun row hrow hmarked => ?_,
      (s.countP_isAmong_markable (s.tableOf table) _).symm, ?_, fun hthrottled hrejected row hrow hdeleted => ?_⟩
    · obtain ⟨s', hdelete, hmarks⟩ := softDelete_marks s table hl id ttl now
      exact ⟨s', hdelete, hmarks.marked, hmarks.others⟩
    · have hdeleted := Store.passes_of_isAmong_markable hrow hmarked
      exact ⟨hdeleted, Row.withTtl_ne_of_isDeletedBy hdeleted⟩
    · rw [List.countP_eq_length_filter]
      exact s.length_markable_add_refusals due
    · rw [Store.markable_of_refusals_nil (Store.refusals_eq_nil hthrottled hrejected due),
        Row.isAmong_iff (fun r hr => (List.mem_filter.mp hr).1) hrow, List.mem_filter]
      exact ⟨hrow, hdeleted⟩
  · intro hthrottled hrejected ids pageLimit hl
    have hmarks : ∀ ids, ∃ s',
        softDeleteMany s table pageLimit ttl now ids =
          (⟨(s.tableOf table).rows.countP (Row.isDeletedByAny ids ttl now), []⟩, s') ∧
          s.HasMarked s' table (Row.isDeletedByAny ids ttl now) ttl := fun ids =>
      softDeleteMany_marks_all hl (softDeleteMany_errors hl hthrottled hrejected ids)
    obtain ⟨s', hmany, hmarked⟩ := hmarks ids
    refine ⟨⟨s', hmany, hmarked.marked, hmarked.others⟩, fun ids' hids => ?_⟩
    obtain ⟨s'', hmany', hmarked'⟩ := hmarks ids'
    rw [← Row.isDeletedByAny_congr hids] at hmany' hmarked'
    rw [hmany, hmany']
    refine ⟨rfl, fun other => ?_⟩
    by_cases ho : other = table
    · rw [ho, hmarked'.marked, hmarked.marked]
    · rw [hmarked'.others other ho, hmarked.others other ho]

namespace Sample

/-- To delete two users of whom one is named twice marks each of their rows once; where one request is throttled, the
rows of the first are marked or are errors, in pages of any size. -/
theorem two_users_are_deleted :
    (∃ s', softDeleteMany created users.table 2 5 5 ["gus", "eve", "gus"] = (⟨4, []⟩, s') ∧
      s'.tableOf users.table =
        (created.tableOf users.table).markWhere (Row.isDeletedByAny ["gus", "eve", "gus"] 5 5) 5) ∧
    ∃ deleted : Deleted,
      (∀ pageLimit, 0 < pageLimit →
        ∃ s', softDelete (created.throttling 1) users.table pageLimit "eve" 5 5 = (deleted, s')) ∧
      deleted.count + deleted.errors.length = 3 := by
  have hcounts : (created.tableOf users.table).rows.countP (Row.isDeletedByAny ["gus", "eve", "gus"] 5 5) = 4 ∧
      ((created.throttling 1).tableOf users.table).rows.countP (Row.isDeletedBy "eve" 5 5) = 3 := by
    rw [created_eq]
    decide +kernel
  obtain ⟨s', hmany, hmarked, -⟩ :=
    ((softDelete_accounts created users.table 5 5).2 created_isFaultless.throttled created_isFaultless.rejected
      ["gus", "eve", "gus"] 2 Nat.two_pos).1
  obtain ⟨deleted, marked, hdelete, -, -, hsum, -⟩ :=
    (softDelete_accounts (created.throttling 1) users.table 5 5).1 "eve"
  refine ⟨⟨s', hcounts.1 ▸ hmany, hmarked⟩, deleted, fun pageLimit hl => ?_, hcounts.2 ▸ hsum⟩
  obtain ⟨after, h, -⟩ := hdelete pageLimit hl
  exact ⟨after, h⟩

end Sample

end PropertyGraph
