import PropertyGraph.Proofs.Marking

/-!
# What a deletion leaves

A deletion marks rows of one partition that have no time to live, or one that is later than both now and the time to
live which is written (`Row.isDeletedBy`), and changes no other row. The pages in which it reads the partition make no
difference: a row that is marked on one page is not read again on a later one, so that the scan is the marking of all
these rows at once (`scan_eq_markRows`, `softDelete_marks`). In a store without faults it marks all of them
(`softDelete_eq`).
-/

namespace PropertyGraph

/-! ## The pages of a deletion -/

/-- The rows that a query of a table comes to and keeps. -/
def Table.kept (t : Table) (q : Query) (start : Option (List String)) : List Row :=
  (t.ahead q .table start).filter q.keeps

namespace Table

variable {t : Table} {q : Query} {start : Option (List String)}

theorem mem_of_kept {row : Row} (h : row ∈ t.kept q start) : row ∈ t.rows := (mem_ahead.mp (List.mem_filter.mp h).1).1

theorem kept_eq_append (t : Table) (q : Query) (start : Option (List String)) :
    t.kept q start = (t.page q .table start).rows ++ ((t.ahead q .table start).drop q.limit).filter q.keeps := by
  rw [kept, page, ← List.filter_append, List.take_append_drop]

theorem kept_of_last (hl : 0 < q.limit) (hlast : (t.page q .table start).last = none) :
    (t.page q .table start).rows = t.kept q start := by
  rw [kept, page, List.take_of_length_le (length_le_of_no_last hl hlast)]

/-- Rows that are marked on a page are not among those behind it, so that a query which continues there comes to the
same rows as before. -/
theorem kept_markWhere {marked : List Row} (ttl : Int64) {next : Option (List String)}
    (hmarked : marked ⊆ (t.page q .table start).rows)
    (hnext : t.ahead q .table next = (t.ahead q .table start).drop q.limit) :
    (t.markWhere (Row.isAmong marked) ttl).ahead q .table next = (t.ahead q .table start).drop q.limit := by
  rw [ahead_markWhere, hnext]
  intro row hrow
  rw [hnext] at hrow
  have hnodup : (t.ahead q .table start).Nodup := t.nodup_rows.filter _
  rw [← List.take_append_drop q.limit (t.ahead q .table start), List.nodup_append] at hnodup
  refine Bool.eq_false_iff.mpr fun hamong => ?_
  have hin : ∀ r ∈ marked, r ∈ t.rows :=
    fun r hr => (mem_ahead.mp (List.mem_of_mem_take (List.mem_filter.mp (hmarked hr)).1)).1
  have hmem := (Row.isAmong_iff hin (mem_ahead.mp (List.mem_of_mem_drop hrow)).1).mp hamong
  exact hnodup.2.2 row (List.mem_filter.mp (hmarked hmem)).1 row hrow rfl

end Table

/-- Where the rows of a page are marked, a query that continues after it comes to the rows behind it. -/
theorem ahead_of_markRows_page {s : Store} {table : String} (ttl : Int64) {q : Query} {start : Option (List String)}
    {last : Row} (hlast : (((s.tableOf table).ahead q .table start).take q.limit).getLast? = some last) :
    let marked := markRows s.queried table ttl ((s.tableOf table).page q .table start).rows
    marked.2.indexName = s.indexName ∧
      (marked.2.tableOf table).ahead q .table (some [last.key.id, last.key.dataType]) =
        ((s.tableOf table).ahead q .table start).drop q.limit := by
  have hplace : View.table.position? last = some [last.key.id, last.key.dataType] := rfl
  obtain ⟨s', hmark, hmarks⟩ := markRows_eq (s := s.queried) ttl
    fun r (hr : r ∈ ((s.tableOf table).page q .table start).rows) =>
      ⟨r, Table.mem_of_kept (Table.kept_eq_append _ q start ▸ List.mem_append_left _ hr), rfl⟩
  have hbehind := Table.kept_markWhere ttl (s.queried.markable_subset _) (Table.ahead_continued hlast hplace)
  rw [hmark]
  exact ⟨hmarks.index, hmarks.marked ▸ hbehind⟩

/-- A scan marks the rows that its query comes to and keeps: the pages make no difference, since each page that ends
with a key leaves fewer rows to come to, and a query makes no difference to the marking. -/
theorem scan_eq_markRows {s : Store} (table : String) (ttl : Int64) {q : Query} {start : Option (List String)}
    (hq : q.resolve s.indexName = .ok (.table, start)) (hl : 0 < q.limit) :
    ∃ s', scan s table ttl q = ((markRows s table ttl ((s.tableOf table).kept q start)).1, s') ∧
      (markRows s table ttl ((s.tableOf table).kept q start)).2.OnlyQueried s' := by
  generalize hn : ((s.tableOf table).ahead q .table start).length = n
  induction n using Nat.strongRecOn generalizing s q start with
  | _ n ih =>
    have hquery : s.query table q = _ := Store.query_eq hq
    have hpage : (s.query table q).1 = .ok ((s.tableOf table).page q .table start) := by rw [hquery]
    have hqueried : (s.query table q).2 = s.queried := by rw [hquery]
    obtain ⟨hsame, hafter⟩ :=
      markRows_queried s.onlyQueried_queried table ttl ((s.tableOf table).kept q start)
    cases hlast : ((s.tableOf table).page q .table start).last with
    | none =>
      refine ⟨_, ?_, hafter⟩
      rw [scan_last hpage hlast, Store.storage_query, hqueried, Table.kept_of_last hl hlast, ← hsame]
    | some key =>
      obtain ⟨hlong, hlast'⟩ := Option.ite_none_right_eq_some.mp hlast
      obtain ⟨last, hrow, rfl⟩ := Option.map_eq_some_iff.mp hlast'
      obtain ⟨hindex, hbehind⟩ := ahead_of_markRows_page (s := s) ttl hrow
      set marked := markRows s.queried table ttl ((s.tableOf table).page q .table start).rows with hmarked
      have hfewer : ((marked.2.tableOf table).ahead q .table (some [last.key.id, last.key.dataType])).length < n := by
        have hlength : q.limit < ((s.tableOf table).ahead q .table start).length := hlong
        rw [hbehind, List.length_drop]
        omega
      obtain ⟨s'', hscan, hrest⟩ := ih _ hfewer (q := { q with startAfter := some (View.table.startKey last) })
        (hindex ▸ QueryAux.resolve_startKey hq rfl) hl rfl
      have hkept : (s.tableOf table).kept q start = ((s.tableOf table).page q .table start).rows ++
          (marked.2.tableOf table).kept { q with startAfter := some (View.table.startKey last) }
            (some [last.key.id, last.key.dataType]) := by
        rw [(s.tableOf table).kept_eq_append q start, ← hbehind]
        rfl
      have hall := markRows_append s.queried table ttl ((s.tableOf table).page q .table start).rows
        ((marked.2.tableOf table).kept { q with startAfter := some (View.table.startKey last) }
          (some [last.key.id, last.key.dataType]))
      rw [← hkept, ← hmarked] at hall
      rw [hall] at hsame hafter
      refine ⟨s'', ?_, hafter.trans hrest⟩
      rw [scan_next hpage hlast, Store.storage_query, hqueried, ← hmarked, ← hsame]
      dsimp only
      rw [hscan]

/-! ## Deletions -/

/-- Whether a deletion marks a row: it lies in the partition, and has no time to live or one after both now and the one
that is written. -/
def Row.isDeletedBy (id : String) (ttl now : Int64) (row : Row) : Bool :=
  row.key.id == id &&
    match (row.attributes.lookup Attribute.ttl).bind Value.int? with
    | some old => max ttl now < old
    | none => true

/-- The later one of two times is the first, or the second where the first is not later. -/
theorem max_eq_or (a b : Int64) : max a b = a ∨ (max a b = b ∧ a ≤ b) := by
  have hmax : max a b = if a ≤ b then b else a := rfl
  rw [hmax]
  split
  next h => exact Or.inr ⟨rfl, h⟩
  · exact Or.inl rfl

theorem isOver_some_iff {t now : Int64} : isOver (some t) now = false ↔ now < t := by
  rw [isOver, decide_eq_false_iff_not, Std.not_le]

theorem isOver_of_le {ttl : Option Int64} {earlier later : Int64} (h : isOver ttl earlier = true)
    (hle : earlier ≤ later) : isOver ttl later = true := by
  cases ttl with
  | none => exact h
  | some t => exact decide_eq_true (Std.le_trans (of_decide_eq_true h) hle)

/-- The time to live that a deletion leaves of an old one: it stays where it is over by now or by the time that is
written. -/
def ttlAfter (ttl now : Int64) (old : Option Int64) : Option Int64 := if isOver old (max ttl now) then old else some ttl

/-- From now on what was deleted is seen as long as it was seen before, but only until the time that is written. -/
theorem isOver_ttlAfter (ttl : Int64) {now later : Int64} (old : Option Int64) (hlater : now ≤ later) :
    isOver (ttlAfter ttl now old) later = false ↔ isOver old later = false ∧ later < ttl := by
  cases hseen : isOver old (max ttl now) with
  | true =>
    rw [ttlAfter, if_pos hseen]
    refine ⟨fun h => ⟨h, ?_⟩, And.left⟩
    have hlt : later < max ttl now :=
      Std.not_le.mp fun hle => Bool.false_ne_true (h.symm.trans (isOver_of_le hseen hle))
    rcases max_eq_or ttl now with hmax | ⟨hmax, -⟩
    · exact hmax ▸ hlt
    · exact absurd hlater (Std.not_le.mpr (hmax ▸ hlt))
  | false =>
    rw [ttlAfter, if_neg (by rw [hseen]; exact Bool.false_ne_true), isOver_some_iff]
    refine ⟨fun h => ⟨Bool.eq_false_iff.mpr fun hover => ?_, h⟩, And.right⟩
    have hle : later ≤ max ttl now := by
      rcases max_eq_or ttl now with hmax | ⟨hmax, hle⟩
      · rw [hmax]
        exact Std.le_of_lt h
      · rw [hmax]
        exact Std.le_trans (Std.le_of_lt h) hle
    exact Bool.false_ne_true (hseen.symm.trans (isOver_of_le hover hle))

/-- The record that a deletion leaves of a record. -/
def Record.afterDelete (id : String) (ttl now : Int64) (r : Record) : Record :=
  if r.key.id == id && !r.isExpired (max ttl now) then r.withTtl ttl else r

theorem Record.IsStorable.afterDelete {r : Record} (h : r.IsStorable) (id : String) (ttl now : Int64) :
    (r.afterDelete id ttl now).IsStorable := by
  rw [Record.afterDelete]
  split
  · exact h.withTtl ttl
  · exact h

/-- What a deletion leaves of a node: in the partition the time to live is the one that is left. -/
theorem Record.afterDelete_node (id : String) (ttl now : Int64) (n : Node) :
    (Record.node n).afterDelete id ttl now =
      .node { n with ttl := if n.id = id then ttlAfter ttl now n.ttl else n.ttl } := by
  by_cases hid : n.id = id
  · subst hid
    cases hseen : isOver n.ttl (max ttl now) <;> simp [afterDelete, ttlAfter, isExpired, key, Key.node, Record.ttl,
      withTtl, hseen]
  · simp [afterDelete, key, Key.node, hid]

/-- What a deletion leaves of an edge: in the partition the time to live is the one that is left. -/
theorem Record.afterDelete_edge (id : String) (ttl now : Int64) (e : Edge) :
    (Record.edge e).afterDelete id ttl now =
      .edge { e with ttl := if e.id = id then ttlAfter ttl now e.ttl else e.ttl } := by
  by_cases hid : e.id = id
  · subst hid
    cases hseen : isOver e.ttl (max ttl now) <;> simp [afterDelete, ttlAfter, isExpired, key, Record.ttl,
      withTtl, hseen]
  · simp [afterDelete, key, hid]

/-- The row of a record that can be stored is, after a deletion, that of the record which the deletion leaves. -/
theorem Row.afterDelete_eq {row : Row} {r : Record} (hr : r.IsStorable) (h : row.attributes = r.toAttributes)
    (id : String) (ttl now : Int64) :
    (if row.isDeletedBy id ttl now then row.withTtl ttl else row).attributes =
      (r.afterDelete id ttl now).toAttributes := by
  have hdeleted : row.isDeletedBy id ttl now = (r.key.id == id && !r.isExpired (max ttl now)) := by
    rw [isDeletedBy, key_of_attributes h hr, h, r.ttl_toAttributes hr, Record.isExpired]
    cases r.ttl with
    | none => rfl
    | some old => rw [isOver, ← decide_not, decide_eq_decide.mpr Std.not_le]
  rw [hdeleted, Record.afterDelete]
  split
  · rw [r.toAttributes_withTtl, ← h]
    rfl
  · exact h

/-- After a deletion a table of records has what the deletion leaves of each of them. -/
theorem Table.has_markWhere_iff {t : Table} {q : Record → Prop} (h : t.Every (Fields.IsRowOf q)) {id : String}
    {ttl now : Int64} {r : Record} :
    (t.markWhere (Row.isDeletedBy id ttl now) ttl).Has r ↔ ∃ old, t.Has old ∧ r = old.afterDelete id ttl now := by
  constructor
  · rintro ⟨hr, row, hrow, hattributes⟩
    obtain ⟨before, hbefore, rfl⟩ := mem_markWhere.mp hrow
    obtain ⟨old, hold, hsame, -⟩ := h.exists_has hbefore
    rw [Row.afterDelete_eq hold.1 hsame] at hattributes
    exact ⟨old, hold, hr.eq_of_toAttributes (hold.1.afterDelete id ttl now) hattributes.symm⟩
  · rintro ⟨old, ⟨hold, row, hrow, hsame⟩, rfl⟩
    exact ⟨hold.afterDelete id ttl now, _, mem_markWhere.mpr ⟨row, hrow, rfl⟩, Row.afterDelete_eq hold hsame id ttl now⟩

/-- The nodes of a table of records after a deletion are those that it had, in the partition with the time to live that
is left. -/
theorem Table.has_node_markWhere_iff {t : Table} {q : Record → Prop} (h : t.Every (Fields.IsRowOf q)) {id : String}
    {ttl now : Int64} {n : Node} : (t.markWhere (Row.isDeletedBy id ttl now) ttl).Has (.node n) ↔
      ∃ old, t.Has (.node old) ∧ n = { old with ttl := if old.id = id then ttlAfter ttl now old.ttl else old.ttl } := by
  rw [has_markWhere_iff h]
  constructor
  · rintro ⟨old, hold, hafter⟩
    cases old with
    | node old => exact ⟨old, hold, Record.node.inj (hafter.trans (Record.afterDelete_node ..))⟩
    | edge e => exact absurd (hafter.trans (Record.afterDelete_edge ..)) (by simp)
  · rintro ⟨old, hold, rfl⟩
    exact ⟨.node old, hold, (Record.afterDelete_node ..).symm⟩

/-- The edges of a table of records after a deletion are those that it had, in the partition with the time to live that
is left. -/
theorem Table.has_edge_markWhere_iff {t : Table} {q : Record → Prop} (h : t.Every (Fields.IsRowOf q)) {id : String}
    {ttl now : Int64} {e : Edge} : (t.markWhere (Row.isDeletedBy id ttl now) ttl).Has (.edge e) ↔
      ∃ old, t.Has (.edge old) ∧ e = { old with ttl := if old.id = id then ttlAfter ttl now old.ttl else old.ttl } := by
  rw [has_markWhere_iff h]
  constructor
  · rintro ⟨old, hold, hafter⟩
    cases old with
    | node n => exact absurd (hafter.trans (Record.afterDelete_node ..)) (by simp)
    | edge old => exact ⟨old, hold, Record.edge.inj (hafter.trans (Record.afterDelete_edge ..))⟩
  · rintro ⟨old, hold, rfl⟩
    exact ⟨.edge old, hold, (Record.afterDelete_edge ..).symm⟩

/-- After a deletion the rows of a table of records are such still. -/
theorem Table.Every.markWhere_isDeletedBy {t : Table} (h : t.Every (Fields.IsRowOf fun _ => True)) (id : String)
    (ttl now : Int64) : (t.markWhere (Row.isDeletedBy id ttl now) ttl).Every (Fields.IsRowOf fun _ => True) := by
  intro row hrow
  obtain ⟨before, hbefore, rfl⟩ := mem_markWhere.mp hrow
  obtain ⟨old, hold, hsame, -⟩ := h.exists_has hbefore
  exact ⟨old.afterDelete id ttl now, hold.1.afterDelete id ttl now, trivial, Row.afterDelete_eq hold.1 hsame id ttl now⟩

/-- To delete an entity is to mark the rows of its partition that are still seen by the time to live, whatever faults
are due and in whatever pages they are read. -/
theorem softDelete_marks (s : Store) (table : String) {pageLimit : Nat} (hl : 0 < pageLimit) (id : String)
    (ttl now : Int64) :
    ∃ s', softDelete s table pageLimit id ttl now =
        (⟨(s.markable ((s.tableOf table).rows.filter (Row.isDeletedBy id ttl now))).length,
          s.refusals ((s.tableOf table).rows.filter (Row.isDeletedBy id ttl now))⟩, s') ∧
      s.HasMarked s' table (Row.isAmong (s.markable ((s.tableOf table).rows.filter (Row.isDeletedBy id ttl now))))
        ttl := by
  have hresolve : (deletionQuery id pageLimit ttl now).resolve s.indexName = .ok (.table, none) := by
    have hview : (deletionQuery id pageLimit ttl now).view s.indexName = .ok .table := rfl
    have hkey : (deletionQuery id pageLimit ttl now).partitionKey = View.table.partitionKey := rfl
    have hlimit : (deletionQuery id pageLimit ttl now).limit ≠ 0 := Nat.ne_of_gt hl
    rw [Query.resolve, hview]
    dsimp only
    rw [if_neg (not_not_intro hkey), if_neg hlimit]
    rfl
  have hdeleted : ∀ row : Row, ((deletionQuery id pageLimit ttl now).keeps row &&
      (deletionQuery id pageLimit ttl now).reaches .table none row) = row.isDeletedBy id ttl now := by
    intro row
    have hreaches : (deletionQuery id pageLimit ttl now).reaches .table none row = (row.key.id == id) := by
      simp [Query.reaches, View.position?, Query.covers, Query.isAfter, deletionQuery, Query.ofTable]
    rw [Bool.and_comm, hreaches, Row.isDeletedBy, Query.keeps]
    cases (row.attributes.lookup Attribute.ttl).bind Value.int? <;> rfl
  have hrows : (s.tableOf table).kept (deletionQuery id pageLimit ttl now) none =
      (s.tableOf table).rows.filter (Row.isDeletedBy id ttl now) := by
    rw [Table.kept, Table.ahead, List.filter_filter]
    exact List.filter_congr fun row _ => hdeleted row
  obtain ⟨s', hscan, hqueried⟩ := scan_eq_markRows table ttl hresolve hl
  rw [hrows] at hscan hqueried
  have hthere : ∀ row ∈ (s.tableOf table).rows.filter (Row.isDeletedBy id ttl now),
      ∃ old ∈ (s.tableOf table).rows, old.key = row.key :=
    fun row hrow => ⟨row, (List.mem_filter.mp hrow).1, rfl⟩
  obtain ⟨marked, hmark, hmarks⟩ := markRows_eq ttl hthere
  rw [hmark] at hscan hqueried
  exact ⟨s', hscan, hmarks.queried hqueried⟩

/-- To delete an entity where nothing goes wrong marks the rows of its partition that are still seen by the time to
live, and counts them.
-/
theorem softDelete_marks_all {s : Store} {table : String} {pageLimit : Nat} (hl : 0 < pageLimit) {id : String}
    {ttl now : Int64} (h : (softDelete s table pageLimit id ttl now).1.errors = []) :
    ∃ s', softDelete s table pageLimit id ttl now =
      (⟨(s.tableOf table).rows.countP (Row.isDeletedBy id ttl now), []⟩, s') ∧
      s.HasMarked s' table (Row.isDeletedBy id ttl now) ttl := by
  obtain ⟨s', hdelete, hmarks⟩ := softDelete_marks s table hl id ttl now
  rw [hdelete] at h
  rw [Store.markable_of_refusals_nil h] at hdelete hmarks
  refine ⟨s', ?_, hmarks.congr fun row hrow => ?_⟩
  · rw [hdelete, List.countP_eq_length_filter, show s.refusals _ = [] from h]
  · rw [Bool.eq_iff_iff, Row.isAmong_iff (fun r hr => (List.mem_filter.mp hr).1) hrow, List.mem_filter,
      and_iff_right hrow]

/-- To delete an entity marks, without faults, the rows of its partition that are still seen by the time to live,
counts them, and reports no error. -/
theorem softDelete_eq {s : Store} (hs : s.IsFaultless) (table : String) {pageLimit : Nat} (hl : 0 < pageLimit)
    (id : String) (ttl now : Int64) :
    ∃ s', softDelete s table pageLimit id ttl now =
      (⟨(s.tableOf table).rows.countP (Row.isDeletedBy id ttl now), []⟩, s') ∧
      s.Marks s' table (Row.isDeletedBy id ttl now) ttl := by
  obtain ⟨s', hdelete, -⟩ := softDelete_marks s table hl id ttl now
  rw [Store.refusals_eq_nil hs.throttled hs.rejected] at hdelete
  obtain ⟨s', hall, hmarks⟩ := softDelete_marks_all hl (by rw [hdelete])
  exact ⟨s', hall, hmarks.faultless hs, hmarks.index, hmarks.marked, hmarks.others⟩

end PropertyGraph
