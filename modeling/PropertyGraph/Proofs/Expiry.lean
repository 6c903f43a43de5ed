import Mathlib.Data.Int.ConditionallyCompleteOrder
import Mathlib.Order.ConditionallyCompleteLattice.Basic
import PropertyGraph.Proofs.PartialDeletion
import PropertyGraph.Proofs.SettingsRules

/-!
# Expiry over time

Deletions only bring the expiry of rows forward. One call gives its time to live to rows that expire later than that
and later than now (`DeleteCall.answer_marks`), so that along any sequence of calls, whatever faults are due, no row
expires later than it did before (`Store.Deleting.expiresNoLater`). What a call writes is never earlier than the grace
window allows (`toInt_effectiveTtl`) and does not go back as time passes (`effectiveTtl_mono`); this is why a call that
is repeated finds nothing left to mark (`Store.Deleting.brings_expiry_forward`).
-/

namespace PropertyGraph

/-! ## Times to live -/

/-- The later one of two times is the later one as an integer. -/
theorem toInt_max (a b : Int64) : (max a b).toInt = max a.toInt b.toInt := by
  have hmax : max a b = if a ≤ b then b else a := rfl
  rw [hmax]
  split
  next h => rw [max_eq_right (Int64.le_iff_toInt_le.mp h)]
  next h => rw [max_eq_left (Int64.le_iff_toInt_le.mp (Std.le_of_not_ge h))]

/-- A number that is kept in range is the nearest end of the range where it is not in it. -/
theorem toInt_clampInt64 (n : Int) : (clampInt64 n).toInt = max Int64.minValue.toInt (min n Int64.maxValue.toInt) := by
  have hrange : Int64.minValue.toInt = -2 ^ 63 ∧ Int64.maxValue.toInt = 2 ^ 63 - 1 := by decide
  unfold clampInt64
  split_ifs with hlow hhigh
  · omega
  · omega
  · rw [Int64.toInt_ofInt_of_le (by omega) (by omega)]
    omega

/-- What a deletion writes, as an integer: the time that is supplied, or now, but not before the grace window, in which
a product and a difference that leave the range stop at its ends. -/
theorem toInt_effectiveTtl (supplied : Option Int64) (now : Int64) {grace : Int64} (hgrace : 0 ≤ grace) :
    (effectiveTtl supplied now grace).toInt = max (supplied.getD now).toInt
      (max Int64.minValue.toInt (now.toInt - min (60 * grace.toInt) Int64.maxValue.toInt)) := by
  have hrange : Int64.minValue.toInt = -2 ^ 63 ∧ Int64.maxValue.toInt = 2 ^ 63 - 1 := by decide
  have hnow := now.toInt_le
  have hnonneg : 0 ≤ grace.toInt := Int64.le_iff_toInt_le.mp hgrace
  have hminute : secondsPerMinute.toInt = 60 := by decide
  rw [effectiveTtl, toInt_max, minusClamped, timesClamped, toInt_clampInt64, toInt_clampInt64, hminute]
  omega

/-- What a deletion writes does not go back as time passes. -/
theorem effectiveTtl_mono (supplied : Option Int64) {now later grace : Int64} (hgrace : 0 ≤ grace)
    (hlater : now ≤ later) : effectiveTtl supplied now grace ≤ effectiveTtl supplied later grace := by
  have hle := Int64.le_iff_toInt_le.mp hlater
  rw [Int64.le_iff_toInt_le, toInt_effectiveTtl supplied now hgrace, toInt_effectiveTtl supplied later hgrace]
  cases supplied with
  | none =>
    rw [Option.getD_none, Option.getD_none]
    omega
  | some ttl =>
    rw [Option.getD_some, Option.getD_some]
    omega

/-! ## Expiry of rows -/

/-- When a row expires: never, where it has no time to live. -/
def Row.expiry (row : Row) : WithTop Int :=
  match (row.attributes.lookup Attribute.ttl).bind Value.int? with
  | some ttl => (ttl.toInt : WithTop Int)
  | none => ⊤

namespace Row

variable {row : Row} {ids : List String} {ttl now : Int64}

theorem expiry_withTtl (row : Row) (ttl : Int64) : (row.withTtl ttl).expiry = (ttl.toInt : WithTop Int) := by
  rw [expiry, ttl_withTtl]

/-- Deletions mark a row where they name its partition and it expires after both now and the time that is written. -/
theorem isDeletedByAny_iff :
    row.isDeletedByAny ids ttl now = true ↔ row.key.id ∈ ids ∧ ((max ttl now).toInt : WithTop Int) < row.expiry := by
  have hlate : (match (row.attributes.lookup Attribute.ttl).bind Value.int? with
      | some old => decide (max ttl now < old)
      | none => true) = true ↔ ((max ttl now).toInt : WithTop Int) < row.expiry := by
    rw [expiry]
    cases (row.attributes.lookup Attribute.ttl).bind Value.int? with
    | none => exact ⟨fun _ => WithTop.coe_lt_top _, fun _ => rfl⟩
    | some old => rw [decide_eq_true_iff, WithTop.coe_lt_coe, Int64.lt_iff_toInt_lt]
  rw [isDeletedByAny, List.any_eq_true]
  constructor
  · rintro ⟨id, hid, hdeleted⟩
    obtain ⟨hkey, hexpiry⟩ := Bool.and_eq_true_iff.mp hdeleted
    exact ⟨eq_of_beq hkey ▸ hid, hlate.mp hexpiry⟩
  · rintro ⟨hid, hexpiry⟩
    exact ⟨row.key.id, hid, Bool.and_eq_true_iff.mpr ⟨beq_self_eq_true _, hlate.mpr hexpiry⟩⟩

/-- A row that should be marked expires after now, and no earlier than what is written. -/
theorem expiry_of_isDeletedByAny (h : row.isDeletedByAny ids ttl now = true) :
    row.key.id ∈ ids ∧ (now.toInt : WithTop Int) < row.expiry ∧ (ttl.toInt : WithTop Int) < row.expiry := by
  obtain ⟨hid, hexpiry⟩ := isDeletedByAny_iff.mp h
  rw [toInt_max] at hexpiry
  exact ⟨hid, lt_of_le_of_lt (WithTop.coe_le_coe.mpr (le_max_right _ _)) hexpiry,
    lt_of_le_of_lt (WithTop.coe_le_coe.mpr (le_max_left _ _)) hexpiry⟩

/-- Whether a row is another one, but for its time to live, and expires no later. -/
def ExpiresNoLater (old new : Row) : Prop := (new = old ∨ ∃ ttl, new = old.withTtl ttl) ∧ new.expiry ≤ old.expiry

theorem ExpiresNoLater.key_eq {old new : Row} (h : old.ExpiresNoLater new) : new.key = old.key := by
  rcases h.1 with rfl | ⟨ttl, rfl⟩ <;> rfl

/-- What happens to a row twice. -/
theorem ExpiresNoLater.trans {first second third : Row} (h : first.ExpiresNoLater second)
    (h' : second.ExpiresNoLater third) : first.ExpiresNoLater third := by
  refine ⟨?_, le_trans h'.2 h.2⟩
  rcases h.1 with rfl | ⟨ttl, rfl⟩
  · exact h'.1
  · rcases h'.1 with rfl | ⟨ttl', rfl⟩
    · exact Or.inr ⟨ttl, rfl⟩
    · exact Or.inr ⟨ttl', Row.withTtl_withTtl ..⟩

end Row

/-- Whether the rows of a table are those of another one, in their places, and expire no later. -/
def Table.ExpiresNoLater (t t' : Table) : Prop :=
  ∃ f : Row → Row, t'.rows = t.rows.map f ∧ ∀ row ∈ t.rows, row.ExpiresNoLater (f row)

namespace Table.ExpiresNoLater

variable {t t' t'' : Table}

theorem refl (t : Table) : t.ExpiresNoLater t := ⟨id, (List.map_id _).symm, fun _ _ => ⟨Or.inl rfl, le_refl _⟩⟩

/-- What happens to a table twice. -/
theorem trans (h : t.ExpiresNoLater t') (h' : t'.ExpiresNoLater t'') : t.ExpiresNoLater t'' := by
  obtain ⟨f, hrows, hf⟩ := h
  obtain ⟨g, hrows', hg⟩ := h'
  refine ⟨g ∘ f, by rw [hrows', hrows, List.map_map], fun row hrow => (hf row hrow).trans (hg _ ?_)⟩
  rw [hrows]
  exact List.mem_map_of_mem hrow

theorem exists_row (h : t.ExpiresNoLater t') {row : Row} (hrow : row ∈ t'.rows) :
    ∃ old ∈ t.rows, old.ExpiresNoLater row := by
  obtain ⟨f, hrows, hf⟩ := h
  rw [hrows] at hrow
  obtain ⟨old, hold, rfl⟩ := List.mem_map.mp hrow
  exact ⟨old, hold, hf old hold⟩

end Table.ExpiresNoLater

/-! ## Calls -/

/-- A call of an engine, at a time, to delete one entity or several. -/
structure DeleteCall where
  engine : Engine
  now : Int64
  request : DeleteRequest
  /-- Whether all ids of the target are meant. -/
  several : Bool

namespace DeleteCall

variable {c : DeleteCall} {s : Store}

/-- What the call answers, and the store after it. -/
def answer (c : DeleteCall) (s : Store) : Response DeleteCount × Store :=
  if c.several then c.engine.deleteMany s c.now c.request else c.engine.delete s c.now c.request

/-- The partitions that the call names. -/
def ids (c : DeleteCall) : List String := if c.several then c.request.target.ids else c.request.target.namedId?.toList

/-- The time to live that the call writes. -/
def ttl (c : DeleteCall) : Int64 := c.engine.deletionTtl c.now c.request

/-- The table in which the call deletes. -/
def table (c : DeleteCall) : String := c.engine.table

/-- The same call at another time. -/
def repeated (c : DeleteCall) (later : Int64) : DeleteCall := { c with now := later }

/-- What becomes of the rows of these partitions, and how many are marked. -/
def deletion (c : DeleteCall) (s : Store) : Deleted × Store :=
  softDeleteMany s c.table c.engine.settings.query.queryAllLimit c.ttl c.now c.ids

theorem queryAllLimit_pos (c : DeleteCall) : 0 < c.engine.settings.query.queryAllLimit :=
  (Settings.ranges_of_validate c.engine.valid).2

/-- A call that names no partition fails and changes nothing; any other deletes the rows of the partitions. -/
theorem answer_cases (c : DeleteCall) (s : Store) :
    (c.ids = [] ∧ ∃ fault, c.answer s = (.failed {} fault, s)) ∨
      (c.ids ≠ [] ∧ c.answer s = (.withErrors ⟨(c.deletion s).1.count⟩ (c.deletion s).1.errors, (c.deletion s).2)) := by
  unfold answer deletion ids
  cases c.several with
  | true =>
    rw [if_pos rfl, if_pos rfl, Engine.deleteMany]
    cases c.request.target.ids with
    | nil => exact Or.inl ⟨rfl, _, rfl⟩
    | cons id rest => exact Or.inr ⟨List.cons_ne_nil _ _, rfl⟩
  | false =>
    rw [if_neg Bool.false_ne_true, if_neg Bool.false_ne_true, Engine.delete]
    cases c.request.target.namedId? with
    | none => exact Or.inl ⟨rfl, _, rfl⟩
    | some id =>
      refine Or.inr ⟨List.cons_ne_nil _ _, ?_⟩
      rw [Option.toList_some, softDeleteMany_singleton]
      rfl

/-- A call marks, whatever faults are due, only rows that it should mark. -/
theorem answer_marks (c : DeleteCall) (s : Store) :
    ∃ marked, s.HasMarked (c.answer s).2 c.table marked c.ttl ∧
      ∀ row ∈ (s.tableOf c.table).rows, marked row = true → row.isDeletedByAny c.ids c.ttl c.now = true := by
  rcases c.answer_cases s with ⟨-, fault, hanswer⟩ | ⟨-, hanswer⟩
  · exact ⟨fun _ => false, by rw [hanswer]; exact .refl fun _ _ => rfl, fun _ _ h => absurd h Bool.false_ne_true⟩
  · rw [hanswer]
    exact softDeleteMany_marks s c.table c.queryAllLimit_pos c.ttl c.now c.ids

theorem ids_ne_nil_of_answer (c : DeleteCall) (h : (c.answer s).1.errors = []) : c.ids ≠ [] := by
  rcases c.answer_cases s with ⟨-, fault, hanswer⟩ | ⟨hsome, -⟩
  · rw [hanswer] at h
    exact absurd h (List.cons_ne_nil _ _)
  · exact hsome

/-- After a call without errors no row is left that it should mark. -/
theorem expiry_le_of_answer (h : (c.answer s).1.errors = []) {row : Row}
    (hrow : row ∈ ((c.answer s).2.tableOf c.table).rows) (hid : row.key.id ∈ c.ids) :
    row.expiry ≤ ((max c.ttl c.now).toInt : WithTop Int) := by
  rcases c.answer_cases s with ⟨hnone, -⟩ | ⟨-, hanswer⟩
  · rw [hnone] at hid
    exact absurd hid List.not_mem_nil
  · rw [hanswer] at h hrow
    obtain ⟨s', hdeletion, hmarks⟩ := softDeleteMany_marks_all c.queryAllLimit_pos (List.map_eq_nil_iff.mp h)
    have hstore : (c.deletion s).2 = s' := by rw [deletion, hdeletion]
    rw [hstore, hmarks.marked] at hrow
    obtain ⟨old, -, rfl⟩ := Table.mem_markWhere.mp hrow
    cases hdeleted : old.isDeletedByAny c.ids c.ttl c.now with
    | true =>
      rw [if_pos rfl, Row.expiry_withTtl, WithTop.coe_le_coe, toInt_max]
      exact le_max_left _ _
    | false =>
      rw [hdeleted, if_neg Bool.false_ne_true] at hid
      rw [if_neg Bool.false_ne_true]
      exact not_lt.mp fun hlt => Bool.false_ne_true (hdeleted.symm.trans (Row.isDeletedByAny_iff.mpr ⟨hid, hlt⟩))

/-- A call reports that nothing was marked, and changes no table, where no row is left that it should mark. -/
theorem answer_of_none_left (hids : c.ids ≠ [])
    (h : ∀ row ∈ (s.tableOf c.table).rows, row.isDeletedByAny c.ids c.ttl c.now = false) :
    (c.answer s).1 = .ok ⟨0⟩ ∧ ∀ table, (c.answer s).2.tableOf table = s.tableOf table := by
  obtain ⟨hdeleted, htables⟩ := softDeleteMany_marks_none c.queryAllLimit_pos h
  rcases c.answer_cases s with ⟨hnone, -⟩ | ⟨-, hanswer⟩
  · exact absurd hnone hids
  · rw [hanswer]
    refine ⟨?_, htables⟩
    rw [deletion, hdeleted]
    rfl

end DeleteCall

/-! ## Sequences of calls -/

/-- The calls that are made one after the other between two stores, at whatever times; what faults are due may change
in between. -/
inductive Store.Deleting : Store → List DeleteCall → Store → Prop
  | done (s : Store) : Deleting s [] s
  | call {s s' : Store} {calls : List DeleteCall} (c : DeleteCall) (rest : Deleting (c.answer s).2 calls s') :
      Deleting s (c :: calls) s'
  | faults {s s' : Store} {calls : List DeleteCall} (throttled : Nat) (rejected : List String)
      (rest : Deleting { s with throttledCalls := throttled, failingIds := rejected } calls s') : Deleting s calls s'

/-- Marking rows that expire later than the time which is written lets no row expire later. -/
theorem Store.HasMarked.expiresNoLater {s s' : Store} {table : String} {marked : Row → Bool} {ttl : Int64}
    (h : s.HasMarked s' table marked ttl)
    (hlate : ∀ row ∈ (s.tableOf table).rows, marked row = true → (ttl.toInt : WithTop Int) < row.expiry)
    (other : String) : (s.tableOf other).ExpiresNoLater (s'.tableOf other) := by
  by_cases ho : other = table
  · rw [ho, h.marked]
    refine ⟨_, rfl, fun row hrow => ?_⟩
    cases hmarked : marked row with
    | true =>
      rw [if_pos rfl, Row.ExpiresNoLater, Row.expiry_withTtl]
      exact ⟨Or.inr ⟨ttl, rfl⟩, (hlate row hrow hmarked).le⟩
    | false => exact ⟨Or.inl rfl, le_refl _⟩
  · rw [h.others other ho]
    exact .refl _

/-- Along a sequence of calls no row of any table expires later than before. -/
theorem Store.Deleting.expiresNoLater {s s' : Store} {calls : List DeleteCall} (h : s.Deleting calls s')
    (table : String) : (s.tableOf table).ExpiresNoLater (s'.tableOf table) := by
  induction h with
  | done s => exact .refl _
  | @call s s' calls c _ ih =>
    obtain ⟨marked, hmarks, hdeleted⟩ := c.answer_marks s
    have hstep := hmarks.expiresNoLater
      (fun row hrow hmarked => (Row.expiry_of_isDeletedByAny (hdeleted row hrow hmarked)).2.2) table
    exact hstep.trans ih
  | faults _ _ _ ih => exact ih

/-- Deletions only ever bring the expiry of rows forward, within the grace window. (1) Along a sequence of calls, at
whatever times and under whatever faults, rows stay in their places with everything but their times to live, and none
expires later than before. (2) The next call marks only rows of the partitions it names that have not expired by its
time. What it writes is at least what is supplied, or its time where nothing is, and at least its time less the grace
window, with all of these numbers taken as unbounded integers; it is the greater of these, where a window or a
difference that would leave the range stops at its end. (3) Where a call without errors came before the sequence, the
same call at the same or a later time reports that nothing was marked, and changes no table. -/
theorem Store.Deleting.brings_expiry_forward {s s' : Store} {calls : List DeleteCall} (h : s.Deleting calls s') :
    (∀ table, (s.tableOf table).ExpiresNoLater (s'.tableOf table)) ∧
    (∀ c : DeleteCall,
      (∃ marked : Row → Bool, (c.answer s').2.tableOf c.table = (s'.tableOf c.table).markWhere marked c.ttl ∧
        (∀ other, other ≠ c.table → (c.answer s').2.tableOf other = s'.tableOf other) ∧
        ∀ row ∈ (s'.tableOf c.table).rows, marked row = true →
          row.key.id ∈ c.ids ∧ (c.now.toInt : WithTop Int) < row.expiry) ∧
      c.now.toInt - 60 * c.engine.settings.delete.graceMinutes.toInt ≤ c.ttl.toInt ∧
      (c.request.timeToLive?.getD c.now).toInt ≤ c.ttl.toInt ∧
      c.ttl.toInt = max (c.request.timeToLive?.getD c.now).toInt (max Int64.minValue.toInt
        (c.now.toInt - min (60 * c.engine.settings.delete.graceMinutes.toInt) Int64.maxValue.toInt))) ∧
    ∀ (before : Store) (c : DeleteCall), (c.answer before).2 = s → (c.answer before).1.errors = [] →
      ∀ later, c.now ≤ later →
      ((c.repeated later).answer s').1 = .ok ⟨0⟩ ∧
      ∀ table, ((c.repeated later).answer s').2.tableOf table = s'.tableOf table := by
  refine ⟨h.expiresNoLater, fun c => ⟨?_, ?_⟩, fun before c hafter hok later hlater => ?_⟩
  · obtain ⟨marked, hmarks, hdeleted⟩ := c.answer_marks s'
    refine ⟨marked, hmarks.marked, hmarks.others, fun row hrow hmarked => ?_⟩
    obtain ⟨hid, hnow, -⟩ := Row.expiry_of_isDeletedByAny (hdeleted row hrow hmarked)
    exact ⟨hid, hnow⟩
  · have hgrace := Settings.graceMinutes_of_validate c.engine.valid
    have hnonneg := Int64.le_iff_toInt_le.mp hgrace
    have hwritten := toInt_effectiveTtl c.request.timeToLive? c.now hgrace
    rw [show c.ttl = effectiveTtl c.request.timeToLive? c.now c.engine.settings.delete.graceMinutes from rfl, hwritten]
    refine ⟨?_, le_max_left _ _, rfl⟩
    omega
  · refine DeleteCall.answer_of_none_left (c := c.repeated later) (c.ids_ne_nil_of_answer hok) fun row hrow => ?_
    refine Bool.eq_false_iff.mpr fun hdeleted => ?_
    obtain ⟨hid, hlate⟩ := Row.isDeletedByAny_iff.mp hdeleted
    obtain ⟨old, hold, hsooner⟩ := (h.expiresNoLater c.table).exists_row hrow
    rw [← hafter] at hold
    have hexpiry := DeleteCall.expiry_le_of_answer hok hold (hsooner.key_eq ▸ hid)
    have hcutoff : (max c.ttl c.now).toInt ≤ (max (c.repeated later).ttl later).toInt := by
      have hgrace := Settings.graceMinutes_of_validate c.engine.valid
      have hwritten : c.ttl.toInt ≤ (c.repeated later).ttl.toInt :=
        Int64.le_iff_toInt_le.mp (effectiveTtl_mono _ hgrace hlater)
      have hnow := Int64.le_iff_toInt_le.mp hlater
      rw [toInt_max, toInt_max]
      omega
    exact absurd hlate (not_lt.mpr (le_trans (le_trans hsooner.2 hexpiry) (WithTop.coe_le_coe.mpr hcutoff)))

namespace Sample

/-- A user is deleted. -/
def leaving : DeleteCall := ⟨users, 5, { target := .ofId "gus" }, false⟩

/-- Later the others are, as of an earlier time. -/
def othersLeaving : DeleteCall :=
  ⟨users, 7, { target := { ids := ["eve", "hal"] }, marking := some { timeToLive := some 3 } }, true⟩

/-- After those deletions, of which the second one met a fault, the first one is repeated and finds nothing to mark. -/
theorem leaving_again_marks_none : ∃ s', (leaving.answer created).2.Deleting [othersLeaving] s' ∧
    ((leaving.repeated 9).answer s').1 = .ok ⟨0⟩ ∧ 3 ≤ othersLeaving.ttl.toInt := by
  obtain ⟨s', hdelete, -⟩ :=
    softDelete_eq created_isFaultless users.table (Settings.ranges_of_validate users.valid).2 "gus" 5 5
  have hok : (leaving.answer created).1.errors = [] :=
    congrArg (fun r : Deleted × Store => r.1.errors.map GraphError.message) hdelete
  have hcalls : (leaving.answer created).2.Deleting [othersLeaving] _ := .faults 1 [] (.call othersLeaving (.done _))
  obtain ⟨-, hwritten, hagain⟩ := hcalls.brings_expiry_forward
  exact ⟨_, hcalls, (hagain created leaving rfl hok 9 (by decide)).1, (hwritten othersLeaving).2.2.1⟩

end Sample

end PropertyGraph
