import Mathlib.Data.Multiset.Dedup
import Mathlib.Data.Multiset.MapFold
import PropertyGraph.Proofs.FilteredPath
import PropertyGraph.Proofs.Writing

/-!
# Racing puts

The puts of a create are issued at once, and so are those of creates that run at the same time. A put takes two steps,
between which others may come: it is throttled or admitted, and then settled (`Store.settle`). A race is any order of
these steps (`Store.Races`). Whatever the order is, the table ends with its old rows and those of the puts that
succeeded, whose keys are new and distinct (`Table.Raced`, `Store.Races.raced`); without faults every key is there in
the end (`Store.Races.exists_key`); and where nothing is throttled and no two puts have one key, the order makes no
difference (`Store.Races.order_irrelevant`). To put rows one after the other is such a race (`putNew_races`).
-/

namespace PropertyGraph

/-! ## Puts and their reports -/

/-- A put that was made of a record, and what it came to. -/
structure PutReport where
  record : Record
  answer : Except GraphError Unit

namespace PutReport

/-- Whether the put succeeded. -/
def isOk (p : PutReport) : Bool :=
  match p.answer with
  | .ok () => true
  | .error _ => false

/-- The error of the put, where there is one. -/
def error? (p : PutReport) : Option GraphError :=
  match p.answer with
  | .ok () => none
  | .error e => some e

/-- The records that were put. -/
def winners (reports : List PutReport) : List Record := (reports.filter isOk).map record

/-- What went wrong with the others. -/
def errors (reports : List PutReport) : List GraphError := reports.filterMap error?

theorem mem_winners {reports : List PutReport} {r : Record} :
    r ∈ winners reports ↔ ∃ p ∈ reports, p.isOk = true ∧ p.record = r := by
  simp only [winners, List.mem_map, List.mem_filter, and_assoc]

/-- How many puts with a key succeeded. -/
theorem countP_wins (reports : List PutReport) (key : Key) :
    reports.countP (fun p => p.isOk && p.record.key == key) = ((winners reports).map Record.key).count key := by
  rw [List.count, List.countP_map, winners, List.countP_map, List.countP_filter]
  exact List.countP_congr fun p _ => by rw [Bool.and_comm]; rfl

/-- Every put succeeds or goes wrong. -/
theorem length_winners_add_errors (reports : List PutReport) :
    (winners reports).length + (errors reports).length = reports.length := by
  induction reports with
  | nil => rfl
  | cons p rest ih =>
    obtain ⟨record, answer⟩ := p
    cases answer with
    | ok _ =>
      simp only [winners, errors, isOk, error?, List.filter_cons, if_true, List.map_cons, List.length_cons,
        List.filterMap_cons] at ih ⊢
      omega
    | error e =>
      simp only [winners, errors, isOk, error?, List.filter_cons, Bool.false_eq_true, if_false, List.length_cons,
        List.filterMap_cons] at ih ⊢
      omega

end PutReport

/-- The runs of a number of puts that must be new, of which some wait, some are admitted, and all come to their
reports. -/
inductive Store.Races (table : String) : Store → Multiset Record → Multiset Record → List PutReport → Store → Prop
  | done (s : Store) : Races table s 0 0 [] s
  | throttle {s s' : Store} {waiting admitted : Multiset Record} {reports : List PutReport} (r : Record)
      (hdue : 0 < s.throttledCalls)
      (rest : Races table { s with throttledCalls := s.throttledCalls - 1 } waiting admitted reports s') :
      Races table s (r ::ₘ waiting) admitted (⟨r, .error .throttled⟩ :: reports) s'
  | enter {s s' : Store} {waiting admitted : Multiset Record} {reports : List PutReport} (r : Record)
      (hdue : s.throttledCalls = 0) (rest : Races table s waiting (r ::ₘ admitted) reports s') :
      Races table s (r ::ₘ waiting) admitted reports s'
  | settle {s s' : Store} {waiting admitted : Multiset Record} {reports : List PutReport} (r : Record)
      (rest : Races table (s.settle table r.toAttributes .ifNotExists).2 waiting admitted reports s') :
      Races table s waiting (r ::ₘ admitted) (⟨r, (s.settle table r.toAttributes .ifNotExists).1⟩ :: reports) s'

/-! ## What a race leaves of its table -/

/-- Whether a table came from another one by puts with such reports: it has the old rows and those of the records that
were put, and these are new and have distinct keys. -/
structure Table.Raced (t t' : Table) (reports : List PutReport) : Prop where
  hasAlso : t'.HasAlso t (PutReport.winners reports)
  lacked : ∀ r ∈ PutReport.winners reports, t.lacks r = true
  nodup : ((PutReport.winners reports).map Record.key).Nodup

namespace Table.Raced

variable {t t' : Table} {reports : List PutReport}

theorem refl (t : Table) : t.Raced t [] where
  hasAlso _ := ⟨Or.inl, fun h => h.elim id fun ⟨_, hr, _⟩ => absurd hr List.not_mem_nil⟩
  lacked _ hr := absurd hr List.not_mem_nil
  nodup := List.nodup_nil

theorem fail (h : t.Raced t' reports) (r : Record) (e : GraphError) : t.Raced t' (⟨r, .error e⟩ :: reports) :=
  ⟨h.hasAlso, h.lacked, h.nodup⟩

/-- A put that adds a row comes before the others. -/
theorem win {row : Row} {r : Record} (hattributes : row.attributes = r.toAttributes) (hkey : row.key = r.key)
    (hlacks : t.lacks r = true) (h : (t.insert row).Raced t' reports) : t.Raced t' (⟨r, .ok ()⟩ :: reports) := by
  have hinsert : ∀ other, other ∈ (t.insert row).rows ↔ other = row ∨ other ∈ t.rows := by
    intro other
    rw [mem_insert]
    refine or_congr_right ⟨And.left, fun hold => ⟨hold, ?_⟩⟩
    rw [hkey]
    exact lacks_iff.mp hlacks other hold
  have hwinners : PutReport.winners (⟨r, .ok ()⟩ :: reports) = r :: PutReport.winners reports := rfl
  have hnew : ∀ other ∈ PutReport.winners reports, other.key ≠ r.key ∧ t.lacks other = true := by
    intro other ho
    have hlacked := lacks_iff.mp (h.lacked other ho)
    exact ⟨fun heq => hlacked row ((hinsert row).mpr (Or.inl rfl)) (hkey.trans heq.symm),
      lacks_iff.mpr fun old hold => hlacked old ((hinsert old).mpr (Or.inr hold))⟩
  refine ⟨fun other => ?_, ?_, ?_⟩
  · rw [h.hasAlso other, hinsert, hwinners]
    simp only [List.mem_cons, exists_eq_or_imp]
    have hsame : other = row ↔ other.attributes = r.toAttributes :=
      ⟨fun heq => heq ▸ hattributes, fun heq => Row.eq_of_attributes (heq.trans hattributes.symm)⟩
    rw [hsame, or_comm (a := other.attributes = _), or_assoc]
  · rw [hwinners]
    exact List.forall_mem_cons.mpr ⟨hlacks, fun other ho => (hnew other ho).2⟩
  · rw [hwinners, List.map_cons, List.nodup_cons]
    refine ⟨fun hmem => ?_, h.nodup⟩
    obtain ⟨other, ho, heq⟩ := List.mem_map.mp hmem
    exact (hnew other ho).1 heq

variable (h : t.Raced t' reports)

include h

/-- The rows of the table are the old ones and those of puts that succeeded. -/
theorem mem_rows (row : Row) :
    row ∈ t'.rows ↔ row ∈ t.rows ∨ ∃ p ∈ reports, p.isOk = true ∧ row.attributes = p.record.toAttributes := by
  rw [h.hasAlso row]
  refine or_congr_right ⟨?_, ?_⟩
  · rintro ⟨r, hr, hattributes⟩
    obtain ⟨p, hp, hok, rfl⟩ := PutReport.mem_winners.mp hr
    exact ⟨p, hp, hok, hattributes⟩
  · rintro ⟨p, hp, hok, hattributes⟩
    exact ⟨p.record, PutReport.mem_winners.mpr ⟨p, hp, hok, rfl⟩, hattributes⟩

theorem isOk_eq_false {p : PutReport} (hp : p ∈ reports) (hlacks : t.lacks p.record = false) : p.isOk = false := by
  refine Bool.eq_false_iff.mpr fun hok => Bool.false_ne_true ?_
  rw [← hlacks, h.lacked p.record (PutReport.mem_winners.mpr ⟨p, hp, hok, rfl⟩)]

/-- After a put that succeeded no other one with its key does. -/
theorem pairwise_isOk : reports.Pairwise fun a b => a.isOk = true → a.record.key = b.record.key → b.isOk = false := by
  have hnodup := h.nodup
  rw [PutReport.winners, List.map_map, List.Nodup, List.pairwise_map, List.pairwise_filter] at hnodup
  exact hnodup.imp fun {a b} hne hok hkey => Bool.eq_false_iff.mpr fun hok' => hne hok hok' hkey

theorem countP_le_one (key : Key) : reports.countP (fun p => p.isOk && p.record.key == key) ≤ 1 := by
  rw [PutReport.countP_wins]
  exact List.nodup_iff_count_le_one.mp h.nodup key

variable (hr : ∀ p ∈ reports, p.record.IsStorable)

include hr

/-- The table has grown by as many rows as puts succeeded. -/
theorem size_eq : t'.size = t.size + (PutReport.winners reports).length := by
  have hwinners : ∀ r ∈ PutReport.winners reports, r.IsStorable := by
    intro r hmem
    obtain ⟨p, hp, -, rfl⟩ := PutReport.mem_winners.mp hmem
    exact hr p hp
  have hkeys : ∀ t : Table, (t.rows.map Row.key).Nodup := by
    intro t
    refine List.pairwise_map.mpr (t.ascending.imp fun {a b} hlt heq => ?_)
    rw [heq] at hlt
    exact absurd hlt (List.lt_irrefl _)
  have hdisjoint : (t.rows.map Row.key).Disjoint ((PutReport.winners reports).map Record.key) := by
    intro key hold hnew
    obtain ⟨row, hrow, rfl⟩ := List.mem_map.mp hold
    obtain ⟨r, hmem, hkey⟩ := List.mem_map.mp hnew
    exact lacks_iff.mp (h.lacked r hmem) row hrow hkey.symm
  have hperm : (t'.rows.map Row.key).Perm (t.rows.map Row.key ++ (PutReport.winners reports).map Record.key) := by
    refine (List.perm_ext_iff_of_nodup (hkeys t') (List.Nodup.append (hkeys t) h.nodup hdisjoint)).mpr fun key => ?_
    rw [List.mem_append, List.mem_map, List.mem_map, List.mem_map]
    constructor
    · rintro ⟨row, hrow, rfl⟩
      rcases (h.hasAlso row).mp hrow with hold | ⟨r, hmem, hattributes⟩
      · exact Or.inl ⟨row, hold, rfl⟩
      · exact Or.inr ⟨r, hmem, (Row.key_of_attributes hattributes (hwinners r hmem)).symm⟩
    · rintro (⟨row, hold, rfl⟩ | ⟨r, hmem, rfl⟩)
      · exact ⟨row, (h.hasAlso row).mpr (Or.inl hold), rfl⟩
      · obtain ⟨row, hrow, hkey, -⟩ := h.hasAlso.exists_row hmem (hwinners r hmem)
        exact ⟨row, hrow, hkey⟩
  have hlength := hperm.length_eq
  rw [List.length_append, List.length_map, List.length_map, List.length_map] at hlength
  exact hlength

/-- Under the key of a put that succeeded is the row of its record. -/
theorem get?_of_isOk {p : PutReport} (hp : p ∈ reports) (hok : p.isOk = true) :
    (t'.get? p.record.key).map Row.attributes = some p.record.toAttributes := by
  have hrow : (⟨p.record.toAttributes, p.record.key, p.record.key?_toAttributes (hr p hp)⟩ : Row) ∈ t'.rows :=
    (h.mem_rows _).mpr (Or.inr ⟨p, hp, hok, rfl⟩)
  have hget := get?_of_mem hrow
  dsimp only at hget
  rw [hget]
  rfl

/-- Where the key of a put that was not there is there in the end, one of the puts with it succeeded. -/
theorem exists_isOk {key : Key} (hlacked : ∀ row ∈ t.rows, row.key ≠ key) (hthere : ∃ row ∈ t'.rows, row.key = key) :
    ∃ p ∈ reports, p.isOk = true ∧ p.record.key = key := by
  obtain ⟨row, hrow, rfl⟩ := hthere
  rcases (h.mem_rows row).mp hrow with hold | ⟨p, hp, hok, hattributes⟩
  · exact absurd rfl (hlacked row hold)
  · exact ⟨p, hp, hok, (Row.key_of_attributes hattributes (hr p hp)).symm⟩

end Table.Raced

/-! ## Races -/

namespace Store

variable {s s' : Store} {table : String} {waiting admitted : Multiset Record} {reports : List PutReport}

/-- A put that is settled leaves the faults that are due and all other tables as they were. -/
theorem settle_keeps (s : Store) (table : String) (attributes : Fields) (condition : PutCondition) :
    (s.settle table attributes condition).2.throttledCalls = s.throttledCalls ∧
      (s.settle table attributes condition).2.failingIds = s.failingIds ∧
      ∀ other, other ≠ table → (s.settle table attributes condition).2.tableOf other = s.tableOf other := by
  unfold settle
  split
  · exact ⟨rfl, rfl, fun _ _ => rfl⟩
  · split_ifs
    · exact ⟨rfl, rfl, fun _ _ => rfl⟩
    · exact ⟨rfl, rfl, fun _ _ => rfl⟩
    · exact ⟨rfl, rfl, fun other ho => by rw [write, tableOf_withTable, if_neg ho]⟩

namespace Races

/-- Every put comes to one report. -/
theorem records_eq (h : Races table s waiting admitted reports s') :
    (↑(reports.map PutReport.record) : Multiset Record) = waiting + admitted := by
  induction h with
  | done s => rfl
  | throttle r _ _ ih => rw [List.map_cons, ← Multiset.cons_coe, ih, Multiset.cons_add]
  | enter r _ _ ih => rw [ih, Multiset.add_cons, Multiset.cons_add]
  | settle r _ ih => rw [List.map_cons, ← Multiset.cons_coe, ih, Multiset.add_cons]

variable {p : Record → Prop} {r : Record}

theorem forall_cons_waiting : (∀ other ∈ (r ::ₘ waiting) + admitted, p other) ↔
    p r ∧ ∀ other ∈ waiting + admitted, p other := by
  simp only [Multiset.cons_add, Multiset.mem_cons, forall_eq_or_imp]

theorem forall_cons_admitted : (∀ other ∈ waiting + (r ::ₘ admitted), p other) ↔
    p r ∧ ∀ other ∈ waiting + admitted, p other := by
  simp only [Multiset.add_cons, Multiset.mem_cons, forall_eq_or_imp]

/-- What holds of the records of puts of which none is admitted holds of those that wait. -/
theorem forall_waiting {records : List Record} (hr : ∀ r ∈ records, r.IsStorable) :
    ∀ r ∈ (↑records : Multiset Record) + 0, r.IsStorable := by
  rw [Multiset.add_zero]
  exact hr

theorem records_perm {records : List Record} (h : Races table s ↑records 0 reports s') :
    (reports.map PutReport.record).Perm records :=
  Multiset.coe_eq_coe.mp (h.records_eq.trans (Multiset.add_zero _))

/-- The puts change no other table. -/
theorem others (h : Races table s waiting admitted reports s') {other : String} (ho : other ≠ table) :
    s'.tableOf other = s.tableOf other := by
  induction h with
  | done s => rfl
  | throttle _ _ _ ih => exact ih
  | enter _ _ _ ih => exact ih
  | @settle s _ _ _ _ r _ ih => exact ih.trans ((s.settle_keeps table _ _).2.2 other ho)

/-- What the puts leave of their table, in whatever order they take their steps. -/
theorem raced (h : Races table s waiting admitted reports s') (hr : ∀ r ∈ waiting + admitted, r.IsStorable) :
    (s.tableOf table).Raced (s'.tableOf table) reports := by
  induction h with
  | done s => exact .refl _
  | throttle r _ _ ih => exact (ih (forall_cons_waiting.mp hr).2).fail r _
  | enter r _ _ ih => exact ih (forall_cons_admitted.mpr (forall_cons_waiting.mp hr))
  | @settle s _ _ _ _ r _ ih =>
    obtain ⟨hstorable, hothers⟩ := forall_cons_admitted.mp hr
    have hrest := ih hothers
    rcases s.settle_cases table hstorable with
      ⟨-, hsettle⟩ | ⟨-, -, hsettle⟩ | ⟨-, hlacks, row, hattributes, hkey, hsettle⟩
    · rw [hsettle] at hrest ⊢
      exact hrest.fail r _
    · rw [hsettle] at hrest ⊢
      exact hrest.fail r _
    · rw [hsettle] at hrest ⊢
      rw [tableOf_write] at hrest
      exact .win hattributes hkey hlacks hrest

theorem isStorable (h : Races table s waiting admitted reports s') (hr : ∀ r ∈ waiting + admitted, r.IsStorable) :
    ∀ p ∈ reports, p.record.IsStorable := by
  intro p hp
  refine hr p.record ?_
  rw [← h.records_eq, Multiset.mem_coe]
  exact List.mem_map_of_mem hp

/-- Without faults the key of every put is there in the end: its row is there right after it, and rows stay. -/
theorem exists_key (h : Races table s waiting admitted reports s') (hr : ∀ r ∈ waiting + admitted, r.IsStorable)
    (hthrottled : s.throttledCalls = 0) (hrejected : s.failingIds = []) :
    ∀ p ∈ reports, ∃ row ∈ (s'.tableOf table).rows, row.key = p.record.key := by
  induction h with
  | done s => exact fun _ hp => absurd hp List.not_mem_nil
  | throttle _ hdue _ _ => exact absurd hthrottled (Nat.ne_of_gt hdue)
  | enter _ _ _ ih => exact ih (forall_cons_admitted.mpr (forall_cons_waiting.mp hr)) hthrottled hrejected
  | @settle s s' _ _ _ r hrest ih =>
    obtain ⟨hstorable, hothers⟩ := forall_cons_admitted.mp hr
    obtain ⟨hzero, hnone, -⟩ := s.settle_keeps table r.toAttributes .ifNotExists
    refine List.forall_mem_cons.mpr ⟨?_, ih hothers (hzero.trans hthrottled) (hnone.trans hrejected)⟩
    have hthere : ∃ row ∈ ((s.settle table r.toAttributes .ifNotExists).2.tableOf table).rows, row.key = r.key := by
      rcases s.settle_cases table hstorable with ⟨hrejects, -⟩ | ⟨-, hlacks, hsettle⟩ | ⟨-, -, row, -, hkey, hsettle⟩
      · rw [rejects, hrejected] at hrejects
        exact absurd hrejects Bool.false_ne_true
      · rw [hsettle]
        exact Table.lacks_eq_false_iff.mp hlacks
      · rw [hsettle, tableOf_write]
        exact ⟨row, Table.mem_insert.mpr (Or.inl rfl), hkey⟩
    obtain ⟨row, hrow, hkey⟩ := hthere
    exact ⟨row, ((hrest.raced hothers).hasAlso row).mpr (Or.inl hrow), hkey⟩

end Races

/-- What a put that is settled answers depends on its key and on the rows of the table alone. -/
theorem settle_answer (s : Store) (table : String) {r : Record} (hr : r.IsStorable) :
    (s.settle table r.toAttributes .ifNotExists).1 =
      if s.rejects r.key.id then .error (.store (.writeRejected r.key.id))
      else if (s.tableOf table).lacks r then .ok () else .error (.rowExists r.key) := by
  rcases s.settle_cases table hr with
    ⟨hrejects, hsettle⟩ | ⟨hrejects, hlacks, hsettle⟩ | ⟨hrejects, hlacks, row, -, -, hsettle⟩
  · rw [hsettle, hrejects, if_pos rfl]
  · rw [hsettle, hrejects, hlacks, if_neg Bool.false_ne_true, if_neg Bool.false_ne_true]
  · rw [hsettle, hrejects, hlacks, if_neg Bool.false_ne_true, if_pos rfl]

/-- A put makes no difference to what one with another key answers. -/
theorem settle_answer_of_ne (s : Store) (table : String) {r other : Record} (hr : r.IsStorable) (ho : other.IsStorable)
    (hne : other.key ≠ r.key) :
    ((s.settle table r.toAttributes .ifNotExists).2.settle table other.toAttributes .ifNotExists).1 =
      (s.settle table other.toAttributes .ifNotExists).1 := by
  have hlacks : ((s.settle table r.toAttributes .ifNotExists).2.tableOf table).lacks other =
      (s.tableOf table).lacks other := by
    rcases s.settle_cases table hr with ⟨-, hsettle⟩ | ⟨-, -, hsettle⟩ | ⟨-, -, row, -, hkey, hsettle⟩
    · rw [hsettle]
    · rw [hsettle]
    · rw [hsettle, tableOf_write, List.foldl_cons, List.foldl_nil, Bool.eq_iff_iff, Table.lacks_iff, Table.lacks_iff]
      refine ⟨fun h old hold heq => ?_, fun h found hfound heq => ?_⟩
      · exact h old (Table.mem_insert.mpr (Or.inr ⟨hold, by rw [heq, hkey]; exact hne⟩)) heq
      · rcases Table.mem_insert.mp hfound with rfl | ⟨hold, -⟩
        · exact hne (heq.symm.trans hkey)
        · exact h found hold heq
  rw [settle_answer _ table ho, settle_answer _ table ho, hlacks, rejects, rejects, (s.settle_keeps table _ _).2.1]

namespace Races

/-- Where nothing is throttled and no two puts have one key, each answers as if it came first. -/
theorem answer_eq (h : Races table s waiting admitted reports s') (hr : ∀ r ∈ waiting + admitted, r.IsStorable)
    (hthrottled : s.throttledCalls = 0) (hkeys : ((waiting + admitted).map Record.key).Nodup) :
    ∀ p ∈ reports, p.answer = (s.settle table p.record.toAttributes .ifNotExists).1 := by
  induction h with
  | done s => exact fun _ hp => absurd hp List.not_mem_nil
  | throttle _ hdue _ _ => exact absurd hthrottled (Nat.ne_of_gt hdue)
  | enter r _ _ ih =>
    refine ih (forall_cons_admitted.mpr (forall_cons_waiting.mp hr)) hthrottled ?_
    rwa [Multiset.add_cons, ← Multiset.cons_add]
  | @settle s s' _ _ _ r hrest ih =>
    obtain ⟨hstorable, hothers⟩ := forall_cons_admitted.mp hr
    rw [Multiset.add_cons, Multiset.map_cons, Multiset.nodup_cons] at hkeys
    refine List.forall_mem_cons.mpr ⟨rfl, fun p hp => ?_⟩
    have hne : p.record.key ≠ r.key := by
      intro heq
      refine hkeys.1 (Multiset.mem_map.mpr ⟨p.record, ?_, heq⟩)
      rw [← hrest.records_eq, Multiset.mem_coe]
      exact List.mem_map_of_mem hp
    rw [ih hothers ((s.settle_keeps table _ _).1.trans hthrottled) hkeys.2 p hp]
    exact s.settle_answer_of_ne table hstorable (hrest.isStorable hothers p hp) hne

/-- Where nothing is throttled and no two puts have one key, their order makes no difference. -/
theorem order_irrelevant {reports' : List PutReport} {s'' : Store} (h : Races table s waiting admitted reports s')
    (h' : Races table s waiting admitted reports' s'') (hr : ∀ r ∈ waiting + admitted, r.IsStorable)
    (hthrottled : s.throttledCalls = 0) (hkeys : ((waiting + admitted).map Record.key).Nodup) :
    reports'.Perm reports ∧ ∀ other, s''.tableOf other = s'.tableOf other := by
  have hdetermined : ∀ {reports : List PutReport} {s' : Store}, Races table s waiting admitted reports s' →
      reports = (reports.map PutReport.record).map fun r => ⟨r, (s.settle table r.toAttributes .ifNotExists).1⟩ := by
    intro reports s' h
    rw [List.map_map]
    conv_lhs => rw [← List.map_id reports]
    refine List.map_congr_left fun p hp => ?_
    rw [Function.comp_apply, ← h.answer_eq hr hthrottled hkeys p hp]
    rfl
  have hrecords : (reports'.map PutReport.record).Perm (reports.map PutReport.record) :=
    Multiset.coe_eq_coe.mp (h'.records_eq.trans h.records_eq.symm)
  have hperm : reports'.Perm reports := by
    rw [hdetermined h, hdetermined h']
    exact hrecords.map _
  refine ⟨hperm, fun other => ?_⟩
  by_cases ho : other = table
  · rw [ho]
    refine Table.eq_of_rows (SortedAux.eq_of_ascending (s''.tableOf table).ascending (s'.tableOf table).ascending
      fun row => ?_)
    have hwinners : ∀ r, r ∈ PutReport.winners reports' ↔ r ∈ PutReport.winners reports := fun r =>
      ((hperm.filter PutReport.isOk).map PutReport.record).mem_iff
    rw [(h'.raced hr).hasAlso row, (h.raced hr).hasAlso row]
    simp only [hwinners]
  · rw [h'.others ho, h.others ho]

/-! ### What becomes of the puts of one key -/

section puts

variable {records : List Record} {key : Key} (h : Races table s ↑records 0 reports s')
  (hr : ∀ r ∈ records, r.IsStorable)

include h hr

theorem isOk_eq_false_of_isSome (hthere : (s.get? table key).isSome) :
    ∀ p ∈ reports, p.record.key = key → p.isOk = false := by
  intro p hp hkey
  rw [Store.get?, Option.isSome_map, ← hkey] at hthere
  exact (h.raced (forall_waiting hr)).isOk_eq_false hp (Option.isNone_eq_false_iff.mpr hthere)

theorem get?_of_isOk {p : PutReport} (hp : p ∈ reports) (hok : p.isOk = true) :
    s'.get? table p.record.key = some p.record.toAttributes :=
  (h.raced (forall_waiting hr)).get?_of_isOk (h.isStorable (forall_waiting hr)) hp hok

/-- After a put that succeeds each other one of its key goes wrong. -/
theorem pairwise_isOk (key : Key) : reports.Pairwise fun earlier later =>
    earlier.isOk = true → earlier.record.key = key → later.record.key = key → later.isOk = false :=
  (h.raced (forall_waiting hr)).pairwise_isOk.imp fun {_ _} hfails hok ha hb => hfails hok (ha.trans hb.symm)

/-- Without faults one put of a key that was not there succeeds. -/
theorem countP_eq_one (hnone : s.get? table key = none) (hthrottled : s.throttledCalls = 0)
    (hrejected : s.failingIds = []) (hasked : ∃ r ∈ records, r.key = key) :
    reports.countP (fun p => p.isOk && p.record.key == key) = 1 := by
  have hputs := forall_waiting hr
  have hlacked : ∀ row ∈ (s.tableOf table).rows, row.key ≠ key := by
    intro row hrow heq
    rw [Store.get?, ← heq, Table.get?_of_mem hrow] at hnone
    exact Option.some_ne_none _ hnone
  refine Nat.le_antisymm ((h.raced hputs).countP_le_one key) (List.countP_pos_iff.mpr ?_)
  obtain ⟨r, hmem, hkey⟩ := hasked
  obtain ⟨p, hp, rfl⟩ := List.mem_map.mp (h.records_perm.mem_iff.mpr hmem)
  obtain ⟨winner, hwinner, hok, hwins⟩ := (h.raced hputs).exists_isOk (h.isStorable hputs) hlacked
    (hkey ▸ h.exists_key hputs hthrottled hrejected p hp)
  exact ⟨winner, hwinner, by rw [hok, hwins, beq_self_eq_true]; rfl⟩

/-- A put adds a row or is an error. -/
theorem size_add_errors :
    s'.size table + (PutReport.errors reports).length = s.size table + records.length := by
  have hputs := forall_waiting hr
  have hsize : s'.size table = s.size table + (PutReport.winners reports).length :=
    (h.raced hputs).size_eq (h.isStorable hputs)
  have hsum := PutReport.length_winners_add_errors reports
  have hlength := h.records_perm.length_eq
  rw [List.length_map] at hlength
  omega

end puts

end Races

end Store

/-- To put rows that must be new one after the other is a race of these puts. -/
theorem putNew_races (s : Store) (table : String) (records : List Record) :
    ∃ reports, s.Races table ↑records 0 reports (putNew s table records).2 ∧
      PutReport.errors reports = (putNew s table records).1 := by
  induction records generalizing s with
  | nil => exact ⟨[], .done s, rfl⟩
  | cons r rest ih =>
    by_cases hdue : 0 < s.throttledCalls
    · obtain ⟨reports, hrest, herrors⟩ := ih { s with throttledCalls := s.throttledCalls - 1 }
      have hput : s.put table r.toAttributes .ifNotExists =
          (.error .throttled, { s with throttledCalls := s.throttledCalls - 1 }) := by
        rw [Store.put_eq_settle, Store.unlessThrottled, if_pos hdue]
      rw [putNew, Store.storage_put, hput]
      exact ⟨_, .throttle r hdue hrest, congrArg (GraphError.throttled :: ·) herrors⟩
    · obtain ⟨reports, hrest, herrors⟩ := ih (s.settle table r.toAttributes .ifNotExists).2
      have hput : s.put table r.toAttributes .ifNotExists = s.settle table r.toAttributes .ifNotExists := by
        rw [Store.put_eq_settle, Store.unlessThrottled, if_neg hdue]
      have hsteps : s.Races table (r ::ₘ ↑rest) 0 (⟨r, (s.settle table r.toAttributes .ifNotExists).1⟩ :: reports) _ :=
        .enter r (Nat.eq_zero_of_not_pos hdue) (.settle r hrest)
      cases hsettle : s.settle table r.toAttributes .ifNotExists with
      | mk answer after =>
        rw [hsettle] at hput hsteps herrors
        refine ⟨⟨r, answer⟩ :: reports, ?_, ?_⟩
        · rw [putNew, Store.storage_put, hput]
          cases answer <;> exact hsteps
        · rw [putNew, Store.storage_put, hput]
          cases answer with
          | ok _ => exact herrors
          | error e => exact congrArg (e :: ·) herrors

/-! ## Creates -/

/-- A call of an engine to create the nodes of a payload. -/
structure CreateCall where
  engine : Engine
  ids : IdSource
  now : Instant
  typeName : String
  request : CreateRequest

namespace CreateCall

/-- What the payload of the call expands to. -/
def expansion (c : CreateCall) : Except GraphError Expansion :=
  ((c.engine.grower c.now).expand c.typeName c.request.data c.request.connections none c.ids).1

/-- The records that the call puts: all of its expansion, where there is one. -/
def puts (c : CreateCall) : List Record :=
  match c.expansion with
  | .ok expansion => expansion.records
  | .error _ => []

/-- What the call answers where its puts are made one after the other, and the store after it. -/
def answer (c : CreateCall) (s : Store) : Response (Option Fields) × Store × IdSource :=
  c.engine.create s c.ids c.now c.typeName c.request

theorem isStorable_of_puts (c : CreateCall) : ∀ r ∈ c.puts, r.IsStorable := by
  intro r hr
  unfold puts at hr
  split at hr
  next expansion hexpansion => exact Grower.isStorable_of_expand (Prod.ext hexpansion rfl) r hr
  · exact absurd hr List.not_mem_nil

theorem isStorable_of_flatMap (calls : List CreateCall) : ∀ r ∈ calls.flatMap puts, r.IsStorable := by
  intro r hr
  obtain ⟨c, -, hc⟩ := List.mem_flatMap.mp hr
  exact c.isStorable_of_puts r hc

/-- The call is a race of its puts, and reports what went wrong with them where its payload expands. -/
theorem answer_races (c : CreateCall) (s : Store) :
    ∃ reports, s.Races c.engine.table ↑c.puts 0 reports (c.answer s).2.1 ∧
      ∀ expansion, c.expansion = .ok expansion →
        (c.answer s).1.errors = (PutReport.errors reports).map GraphError.message := by
  unfold answer Engine.create puts expansion
  cases hexpand : (c.engine.grower c.now).expand c.typeName c.request.data c.request.connections none c.ids with
  | mk answer ids =>
    cases answer with
    | error e => exact ⟨[], .done s, nofun⟩
    | ok expansion =>
      obtain ⟨branches, rfl, -⟩ := Grower.expand_eq_tree hexpand
      cases branches with
      | nil => exact ⟨[], .done s, fun _ _ => rfl⟩
      | cons branch rest =>
        obtain ⟨reports, hraces, herrors⟩ :=
          putNew_races s c.engine.table (Expansion.ofBranches (branch :: rest)).records
        exact ⟨reports, hraces, fun _ _ => by rw [herrors]; rfl⟩

end CreateCall

/-- Of puts that must be new at most one wins each key, and none overwrites a row. (1) For any number of creates that
run at the same time, in any order of the steps of their puts, under any faults: each put is reported once; no row
changes or disappears, and rows are added only by puts that succeed; no put succeeds whose key was there; of the puts
with a key that was not there at most one succeeds, its row is then under the key, and each put that comes after it
goes wrong; without faults one of them does succeed. (2) For one create, in any order of its puts, the rows that are
added and the errors are as many as its records; where nothing is throttled and their keys are distinct, the order
makes no difference to the tables and to the errors but for the order of these. (3) To put the records one after the
other is one of these orders. -/
theorem Store.creates_have_one_winner (s : Store) (table : String) :
    (∀ (calls : List CreateCall) (reports : List PutReport) (s' : Store),
      s.Races table ↑(calls.flatMap CreateCall.puts) 0 reports s' →
      (reports.map PutReport.record).Perm (calls.flatMap CreateCall.puts) ∧
      (∀ other, other ≠ table → s'.tableOf other = s.tableOf other) ∧
      (∀ row, row ∈ (s'.tableOf table).rows ↔
        row ∈ (s.tableOf table).rows ∨ ∃ p ∈ reports, p.isOk = true ∧ row.attributes = p.record.toAttributes) ∧
      ∀ key, ((s.get? table key).isSome → ∀ p ∈ reports, p.record.key = key → p.isOk = false) ∧
        (s.get? table key = none →
          reports.countP (fun p => p.isOk && p.record.key == key) ≤ 1 ∧
          (∀ p ∈ reports, p.isOk = true → p.record.key = key → s'.get? table key = some p.record.toAttributes) ∧
          reports.Pairwise (fun earlier later =>
            earlier.isOk = true → earlier.record.key = key → later.record.key = key → later.isOk = false) ∧
          (s.throttledCalls = 0 → s.failingIds = [] → (∃ r ∈ calls.flatMap CreateCall.puts, r.key = key) →
            reports.countP (fun p => p.isOk && p.record.key == key) = 1))) ∧
    (∀ (c : CreateCall) (reports : List PutReport) (s' : Store), s.Races table ↑c.puts 0 reports s' →
      s'.size table + (PutReport.errors reports).length = s.size table + c.puts.length ∧
      (s.throttledCalls = 0 → (c.puts.map Record.key).Nodup → ∀ reports' s'', s.Races table ↑c.puts 0 reports' s'' →
        (∀ other, s''.tableOf other = s'.tableOf other) ∧
        (PutReport.errors reports').Perm (PutReport.errors reports))) ∧
    ∀ c : CreateCall, c.engine.table = table → ∃ reports, s.Races table ↑c.puts 0 reports (c.answer s).2.1 ∧
      ∀ expansion, c.expansion = .ok expansion →
        (c.answer s).1.errors = (PutReport.errors reports).map GraphError.message := by
  refine ⟨fun calls reports s' h => ?_, fun c reports s' h => ?_, fun c htable => htable ▸ c.answer_races s⟩
  · have hr := CreateCall.isStorable_of_flatMap calls
    have hraced := h.raced (Races.forall_waiting hr)
    refine ⟨h.records_perm, fun other ho => h.others ho, hraced.mem_rows, fun key =>
      ⟨h.isOk_eq_false_of_isSome hr, fun hnone => ⟨hraced.countP_le_one key, fun p hp hok hkey => ?_,
        h.pairwise_isOk hr key, h.countP_eq_one hr hnone⟩⟩⟩
    rw [← hkey]
    exact h.get?_of_isOk hr hp hok
  · have hr := c.isStorable_of_puts
    refine ⟨h.size_add_errors hr, fun hthrottled hkeys reports' s'' h' => ?_⟩
    obtain ⟨hperm, htables⟩ := h.order_irrelevant h' (Races.forall_waiting hr) hthrottled
      (by rwa [Multiset.add_zero, Multiset.map_coe, Multiset.coe_nodup])
    exact ⟨htables, hperm.filterMap _⟩

namespace Sample

/-- The new user is created. -/
def arrival : CreateCall := ⟨users, fresh 0, ⟨0, 0⟩, "User", newcomer⟩

/-- What is put for the new user. -/
theorem puts_arrival : arrival.puts = Branch.recordsOf [newcomers (users.grower ⟨0, 0⟩).stamp] := by
  have hexpansion : arrival.expansion = .ok (.ofBranches [newcomers (users.grower ⟨0, 0⟩).stamp]) :=
    congrArg Prod.fst (expand_newcomer ⟨0, 0⟩)
  rw [CreateCall.puts, hexpansion]
  rfl

/-- Where the new user is created twice at the same time with the same ids, one of the two puts of the node wins. Where
requests are throttled instead, each record that is not put is an error. -/
theorem one_arrival_wins :
    (∃ reports s', (Store.empty "edge-dataType").Races users.table ↑([arrival, arrival].flatMap CreateCall.puts) 0
      reports s' ∧
      reports.countP (fun p => p.isOk && p.record.key == Key.node "eve") = 1) ∧
    ∃ reports s', ((Store.empty "edge-dataType").throttling 2).Races users.table ↑arrival.puts 0 reports s' ∧
      s'.size users.table + (PutReport.errors reports).length = 5 := by
  obtain ⟨reports, hraces, -⟩ := putNew_races (.empty "edge-dataType") users.table
    ([arrival, arrival].flatMap CreateCall.puts)
  obtain ⟨throttled, hthrottled, -⟩ := arrival.answer_races ((Store.empty "edge-dataType").throttling 2)
  have hasked : ∃ r ∈ [arrival, arrival].flatMap CreateCall.puts, r.key = Key.node "eve" := by
    have hnode : arrival.puts.any (·.key == Key.node "eve") = true := by
      rw [puts_arrival]
      decide +kernel
    obtain ⟨r, hr, hkey⟩ := List.any_eq_true.mp hnode
    exact ⟨r, List.mem_append_left _ hr, eq_of_beq hkey⟩
  have hsum := ((Store.creates_have_one_winner _ users.table).2.1 arrival throttled _ hthrottled).1
  refine ⟨⟨reports, _, hraces, ?_⟩, throttled, _, hthrottled, ?_⟩
  · exact ((((Store.creates_have_one_winner _ users.table).1 _ _ _ hraces).2.2.2 (Key.node "eve")).2 rfl).2.2.2 rfl
      rfl hasked
  · rw [hsum, puts_arrival]
    rfl

end Sample

end PropertyGraph
