import PropertyGraph.Proofs.Shown

/-!
# Cursors of any content

A cursor is a text that the caller hands over, so it may hold anything: the key of a row of another partition, one that
no row has, or no key at all. What it can change is where the reading starts. The rows after a place are the last of
the rows along a side (`Table.along_isSuffix`), wherever the place is; so a page holds consecutive neighbors of its
root, its own cursor stands further on, and all that a traversal shows is linked to the root
(`EdgeReader.any_cursor_is_harmless`).
-/

namespace PropertyGraph

/-! ## What comes after a place -/

/-- What comes after a place that is after the start is after the start. -/
theorem Query.isAfter_of_lt {start : Option (List String)} {place next : List String} (h : isAfter start place = true)
    (hlt : place < next) : isAfter start next = true := by
  cases start with
  | none => rfl
  | some s => exact decide_eq_true (List.lt_trans (of_decide_eq_true h) hlt)

namespace Table

variable (t : Table) (root : String) (side : EdgeSide) (start : Option (List String))

/-- The rows along a side that come after a start are those of the rows along it whose places are after the start. -/
theorem along_eq_filter :
    t.along root side start = (t.along root side none).filter fun row => Query.isAfter start (side.view.place row) := by
  refine SortedAux.eq_of_ascending (t.along_ascending root side start) ((t.along_ascending root side none).filter _)
    fun row => ?_
  rw [List.mem_filter, along, along, mem_ahead, mem_ahead, and_assoc]
  refine and_congr_right fun _ => ?_
  rw [Query.reaches, Query.reaches]
  cases hplace : side.view.position? row with
  | none => simp
  | some place => simp only [View.place_eq hplace, Query.isAfter, Bool.and_true, Bool.and_eq_true]

theorem along_isSuffix : t.along root side start <:+ t.along root side none := by
  rw [along_eq_filter]
  exact SortedAux.filter_isSuffix (t.along_ascending root side none) fun _ _ => Query.isAfter_of_lt

/-- The neighbors along a side that come after a start are the last ones along it. -/
theorem neighborsAlong_isSuffix (now : Int64) :
    t.neighborsAlong now root side start <:+ t.neighborsAlong now root side none := by
  obtain ⟨before, hbefore⟩ := t.along_isSuffix root side start
  refine ⟨side.farEnds (before.filterMap (Row.liveEdge? now)), ?_⟩
  rw [neighborsAlong, neighborsAlong, edgesAlong, edgesAlong, ← EdgeSide.farEnds_append, ← List.filterMap_append,
    hbefore]

end Table

/-- The only fault of a cursor is that it is none. -/
theorem EdgeSide.kind_of_startOf {side : EdgeSide} {cursor : Option String} {fault : GraphError}
    (h : side.startOf cursor = .error fault) : fault.kind = .invalidCursor := by
  rw [startOf] at h
  split at h
  next e he =>
    obtain ⟨_, rfl⟩ := Cursor.fault_of_decodeOptional he
    exact Except.error.inj h ▸ rfl
  · simp at h
  next key _ =>
    cases hposition : side.view.startPosition key with
    | ok place => simp [hposition, Except.map] at h
    | error e =>
      obtain ⟨_, rfl⟩ := View.missing_of_startPosition hposition
      rw [hposition] at h
      exact Except.error.inj h ▸ rfl

namespace EdgeReader

variable {r : EdgeReader} {s : Store} {root : String} {side : EdgeSide} {limit : Nat} {cursor : Option String}

/-- The neighbors of a page are the first of those that come after its start. -/
theorem neighbors_isPrefix (r : EdgeReader) (t : Table) (root : String) (side : EdgeSide) (limit : Nat)
    (start : Option (List String)) :
    (r.pageFrom t root side limit start).neighbors <+: t.neighborsAlong r.now root side start := by
  refine ⟨side.farEnds (((t.along root side start).drop limit).filterMap (Row.liveEdge? r.now)), ?_⟩
  rw [pageFrom, Table.neighborsAlong, Table.edgesAlong]
  dsimp only
  rw [← EdgeSide.farEnds_append, ← List.filterMap_append, List.take_append_drop]

/-- From a cursor that names no start a page is refused for the cursor, unless the table is not there, so that the page
is empty. -/
theorem page_of_no_start (root : String) {fault : GraphError} (hindex : r.indexName = s.indexName) (hl : 0 < limit)
    (h : side.startOf cursor = .error fault) :
    (∃ s', r.page s root side limit cursor = (.error fault, s')) ∨
      r.page s root side limit cursor = (.ok ⟨[], [], none⟩, s.queried) := by
  rw [page]
  rw [EdgeSide.startOf] at h
  split at h
  next e he =>
    rw [he, Except.error.inj h]
    exact Or.inl ⟨s, rfl⟩
  · simp at h
  next key hkey =>
    have hstart : (r.query root side limit (some key)).start side.view = .error fault := h
    have hresolve := resolve_query_eq root side (some key) hindex hl
    rw [hstart] at hresolve
    rw [hkey]
    dsimp only [fetch, Store.storage_query]
    rcases s.query_cases r.table (r.query root side limit (some key)) with hquery | hquery
    · rw [hquery, Table.query, hresolve]
      exact Or.inl ⟨s.queried, rfl⟩
    · rw [hquery]
      exact Or.inr rfl

/-- From a cursor that names a start there is a walk, of which the page from that cursor is the first; it finds what
comes after the start. -/
theorem walk_of_page (r : EdgeReader) (s : Store) (root : String) (side : EdgeSide) (limits : Nat → Nat)
    (hl : ∀ k, 0 < limits k) (hindex : r.indexName = s.indexName) (hr : (s.tableOf r.table).IsReadable)
    {start : Option (List String)} (hs : side.startOf cursor = .ok start) :
    ∃ rest s', r.Walk root side limits s cursor (r.pageFrom (s.tableOf r.table) root side (limits 0) start :: rest) s' ∧
      (r.pageFrom (s.tableOf r.table) root side (limits 0) start :: rest).flatMap EdgePage.neighbors =
        (s.tableOf r.table).neighborsAlong r.now root side start := by
  have hpage := page_eq root hindex hr (hl 0) hs
  obtain ⟨pages, s', hwalk, hneighbors, -⟩ := walk_from r root side s limits hl cursor start hindex hr hs
  obtain ⟨rest, rfl⟩ : ∃ rest, pages = r.pageFrom (s.tableOf r.table) root side (limits 0) start :: rest := by
    cases hwalk with
    | last h _ => exact ⟨[], congrArg ([·]) (Except.ok.inj (Prod.mk.inj (h.symm.trans hpage)).1)⟩
    | next h _ _ => exact ⟨_, congrArg (· :: _) (Except.ok.inj (Prod.mk.inj (h.symm.trans hpage)).1)⟩
  exact ⟨rest, s', hwalk, hneighbors⟩

/-- A cursor is harmless whatever its content. In a readable table, a node has neighbors along a side, which the
traversal of all pages finds, such that for whatever text is handed over as a cursor

1. a page is refused for the cursor, or its neighbors come one after the other among those of the node;
2. the cursor of such a page stands at a later place than the one after which the page begins; and
3. following the cursors from that page on, under whatever limits, ends, and finds the last of the neighbors;

and all that a plural traversal of an engine shows, whatever its cursor, limit and filter are, are live nodes among
those neighbors. -/
theorem any_cursor_is_harmless {r : EdgeReader} {s : Store} (root : String) (side : EdgeSide)
    (hindex : r.indexName = s.indexName) (hr : (s.tableOf r.table).IsReadable) :
    ∃ ids, (∀ limit, 0 < limit → ∃ page s', r.all s root side limit none = (.ok page, s') ∧ page.neighbors = ids) ∧
      (∀ (cursor : Option String) (limits : Nat → Nat), (∀ k, 0 < limits k) →
        (∃ fault s', r.page s root side (limits 0) cursor = (.error fault, s') ∧ fault.kind = .invalidCursor) ∨
          ∃ page rest s', r.page s root side (limits 0) cursor = (.ok page, s.queried) ∧ page.neighbors <:+: ids ∧
            (∀ text, page.cursor = some text → ∃ start after, side.startOf cursor = .ok start ∧
              side.startOf (some text) = .ok (some after) ∧ Query.isAfter start after = true) ∧
            r.Walk root side limits s cursor (page :: rest) s' ∧ (page :: rest).flatMap EdgePage.neighbors <:+ ids) ∧
      ∀ (e : Engine) (q : ConnectionRequest), e.reader r.now = r → e.resolve q = .ok (side, root) →
        ∀ out ∈ (e.connectionPlural s r.now q).1.data.edges, out ∈ (s.tableOf r.table).shown r.now ids := by
  refine ⟨(s.tableOf r.table).neighborsAlong r.now root side none, fun limit hl => ?_, fun cursor limits hl => ?_,
    fun e q hreader hresolve out hout => ?_⟩
  · obtain ⟨s', hall, -⟩ := all_eq root side hindex hr hl startOf_none
    exact ⟨_, s', hall, rfl⟩
  · cases hstart : side.startOf cursor with
    | error fault =>
      rcases page_of_no_start root hindex (hl 0) hstart with ⟨s', hpage⟩ | hpage
      · exact Or.inl ⟨fault, s', hpage, EdgeSide.kind_of_startOf hstart⟩
      · exact Or.inr ⟨_, [], _, hpage, List.nil_infix, nofun, Walk.last hpage rfl, List.nil_suffix⟩
    | ok start =>
      have hsuffix := (s.tableOf r.table).neighborsAlong_isSuffix root side start r.now
      have hprefix := neighbors_isPrefix r (s.tableOf r.table) root side (limits 0) start
      obtain ⟨rest, s', hwalk, hneighbors⟩ := walk_of_page r s root side limits hl hindex hr hstart
      refine Or.inr ⟨_, rest, s', page_eq root hindex hr (hl 0) hstart, hprefix.isInfix.trans hsuffix.isInfix,
        fun text htext => ?_, hwalk, hneighbors ▸ hsuffix⟩
      obtain ⟨after, hafter, -, -, hlater⟩ := startOf_cursor htext
      exact ⟨start, after, rfl, hafter, hlater⟩
  · obtain ⟨side', root', hresolve', hshown⟩ := Engine.mem_shown_of_connectionPlural hout
    obtain ⟨rfl, rfl⟩ := Prod.mk.inj (Except.ok.inj (hresolve.symm.trans hresolve'))
    have htable : e.table = r.table := congrArg EdgeReader.table hreader
    rwa [htable] at hshown

end EdgeReader

namespace Sample

/-- The cursor of a row that is in no table, between the two whom the new user follows. -/
def between : String := Cursor.encode (Dict.ofList [(Attribute.id, "eve"), (Attribute.dataType, "follow::h")])

/-- Asks, from that cursor, for those whom the new user follows. -/
def beyond : ConnectionRequest where
  typeName := "User"
  field := "follows"
  source := some (.object [("id", .string "eve")])
  arguments := { cursor := some between }

/-- From that cursor a page has the one behind it, and no plural traversal shows others than the two. -/
theorem between_is_harmless :
    (users.reader 5).indexName = created.indexName ∧ (created.tableOf (users.reader 5).table).IsReadable ∧
      users.resolve beyond = .ok (follows, "eve") ∧
      ∃ ids page rest s', ids = ["gus", "hal"] ∧ page.neighbors = ["hal"] ∧
        (users.reader 5).page created "eve" follows 1 (some between) = (.ok page, created.queried) ∧
        page.neighbors <:+: ids ∧
        (users.reader 5).Walk "eve" follows (fun _ => 1) created (some between) (page :: rest) s' ∧
        ∀ out ∈ (users.connectionPlural created 5 beyond).1.data.edges,
          out ∈ (created.tableOf users.table).shown 5 ids := by
  have hindex : (users.reader 5).indexName = created.indexName := by
    rw [created_eq]
    decide +kernel
  have hstart : follows.startOf (some between) = .ok (some ["eve", "follow::h"]) := by
    rw [EdgeSide.startOf, between, Cursor.decodeOptional_encode]
    rfl
  obtain ⟨ids, hall, hpages, hshown⟩ :=
    EdgeReader.any_cursor_is_harmless (r := users.reader 5) "eve" follows hindex (created_reached.isReadable _)
  have hids : ids = ["gus", "hal"] := by
    obtain ⟨page, s', hpage, rfl⟩ := hall 1 (by decide)
    obtain ⟨s'', heq, -⟩ := EdgeReader.all_eq "eve" follows hindex (created_reached.isReadable _) (show 0 < 1 by decide)
      EdgeReader.startOf_none
    obtain rfl := Except.ok.inj (Prod.mk.inj (hpage.symm.trans heq)).1
    dsimp only
    rw [created_eq]
    decide +kernel
  have hfound := EdgeReader.page_eq "eve" hindex (created_reached.isReadable _) (show 0 < 1 by decide) hstart
  rcases hpages (some between) (fun _ => 1) (fun _ => by decide) with
    ⟨fault, s', hpage, -⟩ | ⟨page, rest, s', hpage, hinfix, -, hwalk, -⟩
  · exact absurd (Prod.mk.inj (hpage.symm.trans hfound)).1 (by simp)
  · refine ⟨hindex, created_reached.isReadable _, rfl, ids, page, rest, s', hids, ?_, hpage, hinfix, hwalk,
      hshown users beyond rfl rfl⟩
    rw [Except.ok.inj (Prod.mk.inj (hpage.symm.trans hfound)).1, created_eq]
    decide +kernel

end Sample

end PropertyGraph
