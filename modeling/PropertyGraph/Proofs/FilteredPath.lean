import PropertyGraph.Proofs.FilterGrammar
import PropertyGraph.Proofs.Reachable
import PropertyGraph.Proofs.SettingsRules
import PropertyGraph.Proofs.Walk

/-!
# The filtered traversal agrees with the plain one

Without a filter a traversal is read page by page, and each page looks up its own nodes. With a filter all neighbors
are read first, in pages of another size, and their nodes are looked up at once. In a store that came about by the
operations of engines both see the same nodes in the same order, so that filtering what the plain pages hold is what
the filtered traversal answers (`Engine.filtered_agrees_with_plain`).
-/

namespace PropertyGraph

/-! ## Filters that ask for something -/

/-- Whether a filter has a comparison, on some field, with an operand that is not null. -/
def Json.asksToFilter (j : Json) : Prop :=
  ∃ fields field comparisons named name operand, j.members? = some fields ∧ (field, comparisons) ∈ fields.entries ∧
    comparisons.members? = some named ∧ (name, operand) ∈ named.entries ∧ operand.isNull = false

/-- A filter that asks for something is not empty. -/
theorem Filter.isEmpty_eq_false {j : Json} {filter : Filter} (h : Filter.ofJson j = .ok filter)
    (hasks : j.asksToFilter) : filter.isEmpty = false := by
  obtain ⟨fields, field, comparisons, named, name, operand, hfields, hfield, hnamed, hmem, hnull⟩ := hasks
  have hne : operand ≠ .null := fun heq => Bool.false_ne_true (hnull.symm.trans (Json.isNull_iff.mpr heq))
  refine Bool.eq_false_iff.mpr fun hempty => ?_
  exact (isEmpty_iff_of_ofJson h).mp hempty field name operand
    ((Json.asks_iff hfields).mpr ⟨comparisons, named, hfield, hnamed, hmem, hne⟩)

/-! ## Pages and their cursors -/

theorem limitOr_some (usual : Nat) {limit : Nat} (h : 0 < limit) : limitOr usual (some limit) = limit := by
  rw [limitOr, Option.filter_some, if_pos (decide_eq_true h), Option.getD_some]

/-- Distinct ids are distinct. -/
theorem nodup_distinctIds {ids seen : List String} :
    (distinctIds seen ids).Nodup ∧ ∀ id ∈ distinctIds seen ids, id ∉ seen := by
  induction ids generalizing seen with
  | nil => exact ⟨List.Pairwise.nil, fun _ h => absurd h List.not_mem_nil⟩
  | cons id rest ih =>
    rw [distinctIds]
    split
    · exact ih
    next hnew =>
      obtain ⟨hnodup, hseen⟩ := @ih (id :: seen)
      refine ⟨List.nodup_cons.mpr ⟨fun hmem => hseen id hmem (List.mem_cons_self ..), hnodup⟩, fun other ho => ?_⟩
      rcases List.mem_cons.mp ho with rfl | ho
      · intro hmem
        exact hnew (Or.inr hmem)
      · intro hmem
        exact hseen other ho (List.mem_cons_of_mem _ hmem)

namespace EdgeReader

variable {r : EdgeReader} {s : Store} {root : String} {side : EdgeSide} {limit : Nat}

/-- A query along a side that asks for something that there is reads the view of the side. -/
theorem view_of_resolve {key : Option StartKey} {indexName : String} {view : View} {start : Option (List String)}
    (h : (r.query root side limit key).resolve indexName = .ok (view, start)) : view = side.view := by
  rw [Query.resolve] at h
  split at h
  · simp at h
  next found hfound =>
    have hview : found = side.view := by
      rw [query, Query.view] at hfound
      rw [EdgeSide.view]
      cases hp : side.principal with
      | true =>
        rw [hp] at hfound
        exact (Except.ok.inj hfound).symm
      | false =>
        rw [hp] at hfound
        simp only [Bool.false_eq_true, if_false, Query.ofIndex] at hfound ⊢
        split at hfound
        · exact (Except.ok.inj hfound).symm
        · simp at hfound
    split at h
    · simp at h
    · split at h
      · simp at h
      · cases hstart : (r.query root side limit key).start found with
        | error e => simp [hstart, Except.map] at h
        | ok begun =>
          simp only [hstart, Except.map, Except.ok.injEq, Prod.mk.injEq] at h
          exact h.1.symm.trans hview

/-- The key that a query along a side ends with names a place in the view of the side. -/
theorem startPosition_of_query {table : String} {key : Option StartKey} {page : Page} {last : StartKey}
    (h : (s.query table (r.query root side limit key)).1 = .ok page) (hl : page.last = some last) :
    ∃ position, side.view.startPosition last = .ok position := by
  unfold Store.query at h
  dsimp only at h
  split at h
  next t _ =>
    rw [Table.query] at h
    cases hresolve : (r.query root side limit key).resolve s.indexName with
    | error e => simp [hresolve, Except.map] at h
    | ok found =>
      obtain ⟨view, start⟩ := found
      obtain rfl := view_of_resolve hresolve
      simp only [hresolve, Except.map, Except.ok.injEq] at h
      subst h
      simp only [Table.page, Option.ite_none_right_eq_some] at hl
      obtain ⟨row, hrow, rfl⟩ := Option.map_eq_some_iff.mp hl.2
      have hreach := (Table.mem_ahead.mp (List.mem_of_mem_take (List.mem_of_getLast? hrow))).2
      obtain ⟨position, hp, -, -⟩ := QueryAux.of_reaches hreach
      exact ⟨position, QueryAux.startPosition_startKey hp⟩
  next =>
    obtain rfl := Except.ok.inj h
    simp [Page.empty] at hl

/-- The cursor that a page along a side ends with names a start, whatever the store is. -/
theorem startOf_of_page {cursor : Option String} {page : EdgePage} {text : String} {s' : Store}
    (hpage : r.page s root side limit cursor = (.ok page, s')) (hc : page.cursor = some text) :
    ∃ start, side.startOf (some text) = .ok start := by
  have h : (r.page s root side limit cursor).1 = .ok page := by rw [hpage]
  rw [EdgeReader.page] at h
  split at h
  · simp at h
  next key _ =>
    dsimp only [fetch, Store.storage_query] at h
    cases hquery : (s.query r.table (r.query root side limit key)).1 with
    | error e => simp [hquery, fetched, Except.map] at h
    | ok answer =>
      rw [hquery, fetched] at h
      cases hedges : liveEdges r.now answer.rows with
      | error e => simp [hedges, Except.map] at h
      | ok edges =>
        simp only [hedges, Except.map, Except.ok.injEq] at h
        subst h
        obtain ⟨last, hlast, rfl⟩ := Option.map_eq_some_iff.mp hc
        obtain ⟨position, hposition⟩ := startPosition_of_query hquery hlast
        refine ⟨some position, ?_⟩
        rw [EdgeSide.startOf, Cursor.decodeOptional_encode]
        dsimp only
        rw [hposition]
        rfl

/-- A page names each neighbor once, and reading it changes nothing but the count of queries. -/
theorem nodup_of_page {cursor : Option String} {page : EdgePage} {s' : Store}
    (hpage : r.page s root side limit cursor = (.ok page, s')) : page.neighbors.Nodup ∧ s.OnlyQueried s' := by
  rw [EdgeReader.page] at hpage
  split at hpage
  · simp at hpage
  next key _ =>
    have hstore : s.OnlyQueried (r.fetch s (r.query root side limit key)).2 := ⟨_, rfl⟩
    cases hfetch : r.fetch s (r.query root side limit key) with
    | mk answer after =>
      rw [hfetch] at hpage hstore
      obtain ⟨hanswer, rfl⟩ := Prod.mk.inj hpage
      refine ⟨?_, hstore⟩
      cases answer with
      | error e => simp [Except.map] at hanswer
      | ok f =>
        rw [← Except.ok.inj hanswer]
        exact nodup_distinctIds.1

/-- The traversal of all pages leaves no cursor. -/
theorem cursor_of_all {cursor : Option String} {page : EdgePage} {s' : Store}
    (hall : r.all s root side limit cursor = (.ok page, s')) : page.cursor = none := by
  have h : (r.all s root side limit cursor).1 = .ok page := by rw [hall]
  rw [EdgeReader.all] at h
  split at h
  · simp at h
  next key _ =>
    dsimp only at h
    cases hedges : (r.edgesFrom s (r.query root side limit key)).1 with
    | error e => simp [hedges, Except.map] at h
    | ok edges =>
      simp only [hedges, Except.map, Except.ok.injEq] at h
      rw [← h]

end EdgeReader

/-! ## One traversal of the engine -/

/-- What callers see of the live nodes of ids. -/
def Table.shown (t : Table) (now : Int64) (ids : List String) : List Fields :=
  (ids.filterMap (t.liveNode? now)).map Node.toOutput

theorem Table.shown_append (t : Table) (now : Int64) (ids others : List String) :
    t.shown now (ids ++ others) = t.shown now ids ++ t.shown now others := by
  rw [shown, shown, shown, List.filterMap_append, List.map_append]

namespace Engine

variable {e : Engine} {s : Store} {now : Int64} {r : ConnectionRequest} {side : EdgeSide} {root : String}

/-- What a traversal answers that has read its neighbors, in a readable store in which nothing is throttled. -/
theorem connectionPlural_eq {filter : Option Filter} {page : EdgePage} {s' : Store}
    (hresolve : e.resolve r = .ok (side, root)) (hfilter : readFilter r = .ok filter)
    (hread : e.neighbors s now r side root (limitOr e.settings.query.defaultLimit r.arguments.limit) filter =
      (.ok page, s'))
    (hnodup : page.neighbors.Nodup) (hr : s'.IsReadable) (hfault : s'.throttledCalls = 0) :
    e.connectionPlural s now r =
      (.ok (let edges := narrowed (limitOr e.settings.query.defaultLimit r.arguments.limit) filter
              ((s'.tableOf e.table).shown now page.neighbors)
        { edges, count := toString edges.length, cursor := page.cursor }), s') := by
  obtain ⟨hs, hmost⟩ := (Settings.ranges_of_validate e.valid).1
  rw [connectionPlural, hresolve]
  dsimp only
  rw [hfilter]
  dsimp only
  rw [hread]
  dsimp only
  rw [look, hydrate_eq now page.neighbors (hr e.table) hfault hs hmost]
  dsimp only
  rw [orderByIds_filterMap hnodup fun _ _ => Table.id_of_liveNode?]
  rfl

end Engine

/-! ## Page after page -/

/-- The request of a page of a traversal: without a filter, of so many nodes, from a cursor. -/
def ConnectionRequest.ofPage (r : ConnectionRequest) (size : Nat) (cursor : Option String) : ConnectionRequest :=
  r.withArguments { r.arguments with limit := some size, cursor := cursor, filter := none }

/-- Reading page after page of a traversal without a filter, until a page names no cursor, where no page has an error.
-/
inductive Engine.Walk (e : Engine) (now : Int64) (r : ConnectionRequest) (size : Nat) :
    Store → Option String → List ConnectionPage → Store → Prop
  | last {s s' : Store} {cursor : Option String} {page : ConnectionPage}
      (h : e.connectionPlural s now (r.ofPage size cursor) = (.ok page, s')) (hlast : page.cursor = none) :
      Walk e now r size s cursor [page] s'
  | next {s s' s'' : Store} {cursor : Option String} {page : ConnectionPage} {text : String}
      {pages : List ConnectionPage} (h : e.connectionPlural s now (r.ofPage size cursor) = (.ok page, s'))
      (hnext : page.cursor = some text) (hrest : Walk e now r size s' (some text) pages s'') :
      Walk e now r size s cursor (page :: pages) s''

/-- Whether a cursor is none, or one that some page of the traversal of a side from a root ended with, of whatever
engine, store and time. -/
def EdgeSide.HasIssued (side : EdgeSide) (root : String) (cursor : Option String) : Prop :=
  cursor = none ∨ ∃ (e : Engine) (s : Store) (now : Int64) (r : ConnectionRequest),
    e.resolve r = .ok (side, root) ∧ (e.connectionPlural s now r).1.data.cursor = cursor

namespace Engine

variable {e : Engine} {s : Store} {now : Int64} {r : ConnectionRequest} {side : EdgeSide} {root : String}

/-- A cursor that was issued names a start. -/
theorem startOf_of_issued {cursor : Option String} (h : side.HasIssued root cursor) :
    ∃ start, side.startOf cursor = .ok start := by
  rcases h with rfl | ⟨e, s, now, r, hresolve, hcursor⟩
  · exact ⟨none, rfl⟩
  · cases cursor with
    | none => exact ⟨none, rfl⟩
    | some text =>
      rw [connectionPlural, hresolve] at hcursor
      dsimp only at hcursor
      split at hcursor
      · exact absurd hcursor.symm (Option.some_ne_none _)
      next filter _ =>
        split at hcursor
        · exact absurd hcursor.symm (Option.some_ne_none _)
        next page s' hpage =>
          have htext : page.cursor = some text := hcursor
          cases filter with
          | none => exact EdgeReader.startOf_of_page hpage htext
          | some f => exact absurd ((EdgeReader.cursor_of_all hpage).symm.trans htext) (Option.some_ne_none _).symm

/-- A page of the traversal shows the live nodes of the neighbors that are read, and keeps the cursor. -/
theorem connectionPlural_ofPage {size : Nat} (hsize : 0 < size) {cursor : Option String} {page : EdgePage} {s' : Store}
    (hresolve : e.resolve r = .ok (side, root)) (hread : (e.reader now).page s root side size cursor = (.ok page, s'))
    (hnodup : page.neighbors.Nodup) (hr : s'.IsReadable) (hfault : s'.throttledCalls = 0) :
    e.connectionPlural s now (r.ofPage size cursor) =
      (.ok (let edges := (s'.tableOf e.table).shown now page.neighbors
        { edges, count := toString edges.length, cursor := page.cursor }), s') := by
  have hlimit : limitOr e.settings.query.defaultLimit (r.ofPage size cursor).arguments.limit = size :=
    limitOr_some _ hsize
  have hneighbors : e.neighbors s now (r.ofPage size cursor) side root
      (limitOr e.settings.query.defaultLimit (r.ofPage size cursor).arguments.limit) none = (.ok page, s') := by
    rw [hlimit]
    exact hread
  have hfilter : readFilter (r.ofPage size cursor) = .ok none := rfl
  rw [connectionPlural_eq (r := r.ofPage size cursor) hresolve hfilter hneighbors hnodup hr hfault]
  rfl

/-- The walk over the pages of a reader, shown page by page, is a walk over the pages of the traversal. -/
theorem walk_of_reader {size : Nat} (hsize : 0 < size) (hresolve : e.resolve r = .ok (side, root)) (hr : s.IsReadable)
    (hfault : s.throttledCalls = 0) {s' : Store} {cursor : Option String} {pages : List EdgePage} {limits : Nat → Nat}
    (hconst : ∀ k, limits k = size) (hwalk : (e.reader now).Walk root side limits s cursor pages s') :
    ∃ shown, e.Walk now r size s cursor shown s' ∧
      shown.flatMap ConnectionPage.edges = (s.tableOf e.table).shown now (pages.flatMap EdgePage.neighbors) := by
  induction hwalk with
  | last hpage hlast =>
    rw [hconst 0] at hpage
    obtain ⟨hnodup, calls, rfl⟩ := EdgeReader.nodup_of_page hpage
    refine ⟨_, .last (connectionPlural_ofPage hsize hresolve hpage hnodup hr hfault) hlast, ?_⟩
    rw [List.flatMap_singleton, List.flatMap_singleton]
    rfl
  | next hpage hnext _ ih =>
    rw [hconst 0] at hpage
    obtain ⟨hnodup, calls, rfl⟩ := EdgeReader.nodup_of_page hpage
    obtain ⟨shown, hshown, hedges⟩ := ih hr hfault fun k => hconst (k + 1)
    refine ⟨_, .next (connectionPlural_ofPage hsize hresolve hpage hnodup hr hfault) hnext hshown, ?_⟩
    rw [List.flatMap_cons, List.flatMap_cons, Table.shown_append, hedges]
    rfl

/-- The filtered traversal agrees with the plain one. In a store that came about by what engines do, and with no
request throttled, a traversal with a filter that asks for something answers, without errors and without a cursor, the
first nodes that the filter keeps of those which the plain traversal shows on all its pages, from the same cursor, at
the same time and whatever the size of its pages is. -/
theorem filtered_agrees_with_plain {filter : Filter} {j : Json} {limit size : Nat} (hs : s.Reached)
    (hfault : s.throttledCalls = 0) (hindex : e.settings.store.edgeIndexName = s.indexName)
    (hresolve : e.resolve r = .ok (side, root)) (hj : r.arguments.filter = some j)
    (hfilter : Filter.ofJson j = .ok filter) (hasks : j.asksToFilter) (hlimit : r.arguments.limit = some limit)
    (hl : 0 < limit) (hcursor : side.HasIssued root r.arguments.cursor) (hsize : 0 < size) :
    ∃ pages s' s'', e.Walk now r size s r.arguments.cursor pages s' ∧
      e.connectionPlural s now r =
        (.ok (let edges := (filter.apply (pages.flatMap ConnectionPage.edges)).take limit
          { edges, count := toString edges.length, cursor := none }), s'') := by
  have hr : s.IsReadable := hs.isReadable
  obtain ⟨start, hstart⟩ := startOf_of_issued hcursor
  have hnotNull : readFilter r = .ok (some filter) := by
    rw [readFilter, hj]
    cases j with
    | null => obtain ⟨fields, _, _, _, _, _, hfields, -⟩ := hasks; exact absurd hfields (by simp [Json.members?])
    | _ => simp only [hfilter, Filter.isEmpty_eq_false hfilter hasks, Bool.false_eq_true, if_false]
  have hlimitOr : limitOr e.settings.query.defaultLimit r.arguments.limit = limit := by
    rw [hlimit, limitOr_some _ hl]
  obtain ⟨pages, s', hwalk, hneighbors, -⟩ :=
    EdgeReader.walk_from (e.reader now) root side s (fun _ => size) (fun _ => hsize) r.arguments.cursor start hindex
      (hr e.table) hstart
  obtain ⟨shown, hshown, hedges⟩ := walk_of_reader hsize hresolve hr hfault (fun _ => rfl) hwalk
  obtain ⟨s'', hall, calls, rfl⟩ :=
    EdgeReader.all_eq (r := e.reader now) root side hindex (hr e.table) (Settings.ranges_of_validate e.valid).2 hstart
  have hnodup : ((s.tableOf e.table).neighborsAlong now root side start).Nodup :=
    ((s.tableOf e.table).neighborsAlong_ascending now root side start).imp fun {_ _} hlt => Std.ne_of_lt hlt
  have hread : e.neighbors s now r side root (limitOr e.settings.query.defaultLimit r.arguments.limit) (some filter) =
      _ := hall
  refine ⟨shown, s', { s with queryCalls := calls }, hshown, ?_⟩
  rw [connectionPlural_eq hresolve hnotNull hread hnodup hr hfault, hlimitOr, hedges, hneighbors]
  rfl

end Engine

namespace Sample

/-- Asks for one of those whom the new user follows, of a given name. -/
def byName : ConnectionRequest where
  typeName := "User"
  field := "follows"
  source := some (.object [("id", .string "eve")])
  arguments := { limit := some 1, filter := some (.object [("name", .object [("equalTo", .string "Hal")])]) }

/-- A store in which nothing is but what was created for the new user. -/
def created : Store := (users.create (Store.empty "edge-dataType") (fresh 0) ⟨0, 0⟩ "User" newcomer).2.1

theorem created_eq :
    created = (putNew (Store.empty "edge-dataType") users.table
      (Branch.recordsOf [newcomers (users.grower ⟨0, 0⟩).stamp])).2 := by
  rw [created, Engine.create, expand_newcomer]
  rfl

theorem created_reached : created.Reached :=
  .create (.empty "edge-dataType") users (fresh 0) ⟨0, 0⟩ "User" newcomer

theorem created_indexName : users.settings.store.edgeIndexName = created.indexName := by
  rw [created_eq]
  rfl

/-- In that store the one of that name is the first whom the filter keeps of those on the plain pages of one node. -/
theorem byName_agrees_with_pages :
    ∃ pages s' s'', users.Walk 5 byName 1 created none pages s' ∧
      users.connectionPlural created 5 byName =
        (.ok (let edges := ((⟨[⟨"name", [⟨.equalTo, .value (.string "Hal")⟩]⟩]⟩ : Filter).apply
            (pages.flatMap ConnectionPage.edges)).take 1
          { edges, count := toString edges.length, cursor := none }), s'') := by
  have hfault : created.throttledCalls = 0 := by
    rw [created_eq]
    decide +kernel
  have hasks : (Json.object [("name", .object [("equalTo", .string "Hal")])]).asksToFilter :=
    ⟨_, _, _, _, _, _, rfl, List.mem_cons_self .., rfl, List.mem_cons_self .., rfl⟩
  exact Engine.filtered_agrees_with_plain created_reached hfault created_indexName rfl rfl rfl hasks rfl (by decide)
    (Or.inl rfl) (by decide)

end Sample

end PropertyGraph
