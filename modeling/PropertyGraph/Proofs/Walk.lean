import PropertyGraph.Proofs.Traversal

/-!
# Walks over the pages of a traversal

A walk reads page after page, handing each cursor on, until a page has none (`EdgeReader.Walk`). Every page reads the
rows after its start, and its cursor stands exactly where the rows it did not read begin; so a walk ends, whatever the
limits of its pages are, and finds what the traversal of all pages finds (`EdgeReader.walk_from`).
-/

namespace PropertyGraph

/-! ## One query -/

namespace Store

/-- The store after a query. -/
def queried (s : Store) : Store := { s with queryCalls := s.queryCalls + 1 }

@[simp] theorem tableOf_queried (s : Store) (table : String) : s.queried.tableOf table = s.tableOf table := rfl

/-- A query only counts. -/
theorem onlyQueried_queried (s : Store) : s.OnlyQueried s.queried := ⟨_, rfl⟩

theorem OnlyQueried.trans {s s' s'' : Store} (h : s.OnlyQueried s') (h' : s'.OnlyQueried s'') : s.OnlyQueried s'' := by
  obtain ⟨calls, rfl⟩ := h
  obtain ⟨more, rfl⟩ := h'
  exact ⟨more, rfl⟩

/-- A query that asks for something that there is gets a page, of a table that is not there an empty one. -/
theorem query_eq {s : Store} {table : String} {q : Query} {view : View} {start : Option (List String)}
    (h : q.resolve s.indexName = .ok (view, start)) :
    s.query table q = (.ok ((s.tableOf table).page q view start), s.queried) := by
  rw [query, tableOf, queried]
  cases s.tables.get? table with
  | none =>
    have hempty : Table.empty.page q view start = Page.empty := by
      cases view <;> simp [Table.page, Table.ahead, Table.empty, View.inOrder, Page.empty]
    rw [Option.getD_none, hempty]
  | some t =>
    dsimp only [Option.getD_some]
    rw [Table.query, h]
    rfl

end Store

/-! ## One page -/

namespace EdgeReader

variable {r : EdgeReader} {s : Store} {root : String} {side : EdgeSide} {limit : Nat} {start : Option (List String)}

/-- The query of the edges from a node along a side asks for what there is, from where its key says. -/
theorem resolve_query_eq (root : String) (side : EdgeSide) (key : Option StartKey) (hindex : r.indexName = s.indexName)
    (hl : 0 < limit) : (r.query root side limit key).resolve s.indexName =
      ((r.query root side limit key).start side.view).map (side.view, ·) := by
  have hview : (r.query root side limit key).view s.indexName = .ok side.view := by
    rw [query, Query.view, EdgeSide.view]
    cases side.principal with
    | true => rfl
    | false => simp [Query.ofIndex, hindex]
  have hkey : (r.query root side limit key).partitionKey = side.view.partitionKey := by
    rw [query, EdgeSide.view]
    cases side.principal <;> rfl
  have hlimit : (r.query root side limit key).limit ≠ 0 := Nat.ne_of_gt hl
  rw [Query.resolve, hview]
  dsimp only
  rw [if_neg (not_not_intro hkey), if_neg hlimit]

/-- The query of the edges from a node along a side asks for something that there is. -/
theorem resolve_query {key : Option StartKey} (hindex : r.indexName = s.indexName) (hl : 0 < limit)
    (hs : (r.query root side limit key).start side.view = .ok start) :
    (r.query root side limit key).resolve s.indexName = .ok (side.view, start) := by
  rw [resolve_query_eq root side key hindex hl, hs]
  rfl

theorem ahead_query (t : Table) (key : Option StartKey) :
    t.ahead (r.query root side limit key) side.view start = t.along root side start := by
  rw [Table.along]
  refine t.ahead_congr ?_ ?_ side.view start
  · rw [query]
    cases side.principal <;> rfl
  · rfl

/-- What one page of edges reads. -/
theorem fetch_query {key : Option StartKey} (hindex : r.indexName = s.indexName) (hr : (s.tableOf r.table).IsReadable)
    (hl : 0 < limit) (hs : (r.query root side limit key).start side.view = .ok start) :
    r.fetch s (r.query root side limit key) =
      (.ok ⟨(((s.tableOf r.table).along root side start).take limit).filterMap (Row.liveEdge? r.now),
        if ((s.tableOf r.table).along root side start).length > limit then
          (((s.tableOf r.table).along root side start).take limit).getLast?.map side.view.startKey
        else none⟩, s.queried) := by
  rw [fetch, Store.storage_query, Store.query_eq (resolve_query hindex hl hs), fetched, Table.page, ahead_query]
  dsimp only
  rw [show (r.query root side limit key).limit = limit from rfl, liveEdges_eq, filterMap_filter_keeps rfl]
  · rfl
  · intro row hrow
    exact hr row (Table.mem_rows_of_mem_along (List.mem_of_mem_take (List.mem_filter.mp hrow).1))

/-- The key of the last row that was read stands before the rows that were not read. -/
theorem along_continued {t : Table} {last : Row} (h : ((t.along root side start).take limit).getLast? = some last) :
    side.view.startPosition (side.view.startKey last) = .ok (side.view.place last) ∧
      t.along root side (some (side.view.place last)) = (t.along root side start).drop limit := by
  have hp := Table.position_of_mem_along (List.mem_of_mem_take (List.mem_of_getLast? h))
  exact ⟨QueryAux.startPosition_startKey hp, Table.ahead_continued h hp⟩

/-- The start that a cursor names is where the query with the key of that cursor starts. -/
theorem start_query (r : EdgeReader) (root : String) (limit : Nat) {cursor : Option String}
    (h : side.startOf cursor = .ok start) :
    ∃ key, Cursor.decodeOptional cursor = .ok key ∧ (r.query root side limit key).start side.view = .ok start := by
  rw [EdgeSide.startOf] at h
  split at h
  · simp at h
  next hkey => exact ⟨none, hkey, h⟩
  next key hkey => exact ⟨some key, hkey, h⟩

theorem startOf_none : side.startOf none = .ok none := rfl

/-- The page that starts after a place. -/
def pageFrom (r : EdgeReader) (t : Table) (root : String) (side : EdgeSide) (limit : Nat)
    (start : Option (List String)) : EdgePage :=
  let rows := t.along root side start
  let edges := (rows.take limit).filterMap (Row.liveEdge? r.now)
  ⟨side.farEnds edges, edges,
    (if rows.length > limit then (rows.take limit).getLast?.map side.view.startKey else none).map Cursor.encode⟩

/-- A page of a traversal, from a cursor that names a start. -/
theorem page_eq (root : String) {cursor : Option String} (hindex : r.indexName = s.indexName)
    (hr : (s.tableOf r.table).IsReadable) (hl : 0 < limit) (hs : side.startOf cursor = .ok start) :
    r.page s root side limit cursor = (.ok (r.pageFrom (s.tableOf r.table) root side limit start), s.queried) := by
  obtain ⟨key, hkey, hstart⟩ := start_query r root limit hs
  rw [page, hkey]
  dsimp only
  rw [fetch_query hindex hr hl hstart, pageFrom]
  have hneighbors := (s.tableOf r.table).neighbors_eq_farEnds r.now root side
    (List.take_sublist limit ((s.tableOf r.table).along root side start))
  simp only [Except.map, hneighbors]

/-- The cursor of a page stands before the rows that the page did not read, and after its start. -/
theorem startOf_cursor {t : Table} {cursor : String} (h : (r.pageFrom t root side limit start).cursor = some cursor) :
    ∃ position, side.startOf (some cursor) = .ok (some position) ∧
      t.along root side (some position) = (t.along root side start).drop limit ∧
      limit < (t.along root side start).length ∧ Query.isAfter start position = true := by
  rw [pageFrom] at h
  dsimp only at h
  obtain ⟨key, hkey, rfl⟩ := Option.map_eq_some_iff.mp h
  rw [Option.ite_none_right_eq_some] at hkey
  obtain ⟨hlong, hkey⟩ := hkey
  obtain ⟨last, hlast, rfl⟩ := Option.map_eq_some_iff.mp hkey
  obtain ⟨hstart, hrest⟩ := along_continued hlast
  obtain ⟨place, hp, -, hafter⟩ :=
    QueryAux.of_reaches (Table.mem_ahead.mp (List.mem_of_mem_take (List.mem_of_getLast? hlast))).2
  refine ⟨side.view.place last, ?_, hrest, hlong, View.place_eq hp ▸ hafter⟩
  rw [EdgeSide.startOf, Cursor.decodeOptional_encode]
  dsimp only
  rw [hstart]
  rfl

theorem length_le_of_no_cursor {t : Table} (hl : 0 < limit) (h : (r.pageFrom t root side limit start).cursor = none) :
    (t.along root side start).length ≤ limit :=
  length_le_of_no_last hl (Option.map_eq_none_iff.mp h)

/-- The edges along a side are those of a page and those that come after its last row. -/
theorem edgesAlong_eq_append {t : Table} {now : Int64} {position : List String}
    (h : t.along root side (some position) = (t.along root side start).drop limit) :
    t.edgesAlong now root side start =
      ((t.along root side start).take limit).filterMap (Row.liveEdge? now) ++
        t.edgesAlong now root side (some position) := by
  rw [Table.edgesAlong, Table.edgesAlong, h, ← List.filterMap_append, List.take_append_drop]

/-! ## All pages -/

/-- A query that is continued behind the last row of a page starts at the place of that row. -/
theorem start_continued (r : EdgeReader) {t : Table} {last : Row}
    (hlast : ((t.along root side start).take limit).getLast? = some last) :
    (r.query root side limit (some (side.view.startKey last))).start side.view =
      .ok (some (side.view.place last)) := by
  rw [Query.start]
  dsimp only [query]
  rw [(along_continued hlast).1]
  rfl

/-- The edges of all pages of a query are the live edges of the rows that come after its start, by induction on the
rows that are left to read. -/
theorem edgesFrom_query (r : EdgeReader) (root : String) (side : EdgeSide) {limit : Nat} (hl : 0 < limit) (s : Store)
    (key : Option StartKey) (start : Option (List String)) (hindex : r.indexName = s.indexName)
    (hr : (s.tableOf r.table).IsReadable) (hs : (r.query root side limit key).start side.view = .ok start) :
    ∃ s', r.edgesFrom s (r.query root side limit key) =
      (.ok ((s.tableOf r.table).edgesAlong r.now root side start), s') ∧
      s.OnlyQueried s' := by
  generalize hn : ((s.tableOf r.table).along root side start).length = n
  induction n using Nat.strongRecOn generalizing s key start with
  | _ n ih =>
    have hfetch := fetch_query hindex hr hl hs
    have hread : (r.fetch s (r.query root side limit key)).1 = .ok _ := congrArg Prod.fst hfetch
    have hqueried : (r.fetch s (r.query root side limit key)).2 = s.queried := congrArg Prod.snd hfetch
    cases hnext : (if ((s.tableOf r.table).along root side start).length > limit then
      (((s.tableOf r.table).along root side start).take limit).getLast?.map side.view.startKey else none) with
    | none =>
      refine ⟨s.queried, ?_, s.onlyQueried_queried⟩
      rw [edgesFrom_last hread hnext, hqueried, List.take_of_length_le (length_le_of_no_last hl hnext)]
      rfl
    | some next =>
      obtain ⟨hlong, hlastKey⟩ := Option.ite_none_right_eq_some.mp hnext
      obtain ⟨last, hlast, rfl⟩ := Option.map_eq_some_iff.mp hlastKey
      obtain ⟨-, hrest⟩ := along_continued hlast
      have hfewer : ((s.queried.tableOf r.table).along root side (some (side.view.place last))).length < n := by
        rw [Store.tableOf_queried, hrest, List.length_drop]
        omega
      obtain ⟨s', hs', hq⟩ := ih _ hfewer s.queried _ _ hindex hr (r.start_continued hlast) rfl
      refine ⟨s', ?_, s.onlyQueried_queried.trans hq⟩
      rw [edgesFrom_next hread hnext, hqueried]
      rw [show ({ r.query root side limit key with startAfter := some (side.view.startKey last) } : Query) =
        r.query root side limit (some (side.view.startKey last)) from rfl, hs']
      dsimp only [Except.map]
      rw [edgesAlong_eq_append hrest, Store.tableOf_queried]

/-- The traversal of all pages, from a cursor that names a start. -/
theorem all_eq {r : EdgeReader} {s : Store} (root : String) (side : EdgeSide) {limit : Nat}
    {start : Option (List String)} {cursor : Option String} (hindex : r.indexName = s.indexName)
    (hr : (s.tableOf r.table).IsReadable) (hl : 0 < limit) (hs : side.startOf cursor = .ok start) :
    ∃ s', r.all s root side limit cursor =
        (.ok ⟨(s.tableOf r.table).neighborsAlong r.now root side start,
          (s.tableOf r.table).edgesAlong r.now root side start, none⟩, s') ∧ s.OnlyQueried s' := by
  obtain ⟨key, hkey, hstart⟩ := start_query r root limit hs
  obtain ⟨s', hs', hq⟩ := edgesFrom_query r root side hl s key start hindex hr hstart
  refine ⟨s', ?_, hq⟩
  rw [all, hkey]
  dsimp only
  rw [hs']
  dsimp only [Except.map]
  rw [Table.neighborsAlong, Table.edgesAlong, Table.neighbors_eq_farEnds _ _ _ _ (List.Sublist.refl _)]

/-! ## Page after page -/

/-- Reading page after page from a cursor, each page under the next of the limits, until a page names no cursor. -/
inductive Walk (r : EdgeReader) (root : String) (side : EdgeSide) :
    (Nat → Nat) → Store → Option String → List EdgePage → Store → Prop
  | last {limits : Nat → Nat} {s s' : Store} {cursor : Option String} {page : EdgePage}
      (h : r.page s root side (limits 0) cursor = (.ok page, s')) (hlast : page.cursor = none) :
      Walk r root side limits s cursor [page] s'
  | next {limits : Nat → Nat} {s s' s'' : Store} {cursor : Option String} {page : EdgePage} {text : String}
      {pages : List EdgePage} (h : r.page s root side (limits 0) cursor = (.ok page, s'))
      (hnext : page.cursor = some text) (hrest : Walk r root side (fun k => limits (k + 1)) s' (some text) pages s'') :
      Walk r root side limits s cursor (page :: pages) s''

/-- How many pages of so many rows there are, of which there is always one. -/
def pageCount (rows limit : Nat) : Nat := max 1 ((rows + limit - 1) / limit)

/-- Rows that are no more than a page are one page. -/
theorem pageCount_of_le {rows limit : Nat} (h : rows ≤ limit) : pageCount rows limit = 1 := by
  rcases Nat.eq_zero_or_pos limit with rfl | hl
  · rw [pageCount, Nat.div_zero]
    rfl
  · have hfew : (rows + limit - 1) / limit < 2 := (Nat.div_lt_iff_lt_mul hl).mpr (by omega)
    rw [pageCount]
    omega

/-- Rows that are more than a page are that page and the pages of the others. -/
theorem pageCount_of_lt {rows limit : Nat} (hl : 0 < limit) (h : limit < rows) :
    pageCount rows limit = pageCount (rows - limit) limit + 1 := by
  have hsome : 0 < (rows - limit + limit - 1) / limit := Nat.div_pos (by omega) hl
  have hsplit : (rows + limit - 1) / limit = (rows - limit + limit - 1) / limit + 1 := by
    rw [← Nat.add_div_right _ hl]
    congr 1
    omega
  rw [pageCount, pageCount, hsplit]
  omega

/-- Every walk ends, since each page that names a cursor leaves fewer rows to read, and its pages together have the
neighbors that come after its start; under one limit it takes as many pages as the rows make up, those that have
expired included. -/
theorem walk_from (r : EdgeReader) (root : String) (side : EdgeSide) (s : Store) (limits : Nat → Nat)
    (hl : ∀ k, 0 < limits k) (cursor : Option String) (start : Option (List String))
    (hindex : r.indexName = s.indexName) (hr : (s.tableOf r.table).IsReadable) (hs : side.startOf cursor = .ok start) :
    ∃ pages s', Walk r root side limits s cursor pages s' ∧
      pages.flatMap EdgePage.neighbors = (s.tableOf r.table).neighborsAlong r.now root side start ∧
      ∀ limit, (∀ k, limits k = limit) →
        pages.length = pageCount ((s.tableOf r.table).along root side start).length limit := by
  generalize hn : ((s.tableOf r.table).along root side start).length = n
  induction n using Nat.strongRecOn generalizing s limits cursor start with
  | _ n ih =>
    have hpage := page_eq root hindex hr (hl 0) hs
    cases hc : (r.pageFrom (s.tableOf r.table) root side (limits 0) start).cursor with
    | none =>
      have hfew := length_le_of_no_cursor (hl 0) hc
      refine ⟨_, _, Walk.last hpage hc, ?_, ?_⟩
      · rw [List.flatMap_singleton, pageFrom]
        dsimp only
        rw [List.take_of_length_le hfew, Table.neighborsAlong, Table.edgesAlong]
      · intro limit hconst
        rw [← hconst 0, pageCount_of_le (hn ▸ hfew)]
        rfl
    | some text =>
      obtain ⟨position, hstart, hrest, hlong, -⟩ := startOf_cursor hc
      have hfewer : ((s.queried.tableOf r.table).along root side (some position)).length < n := by
        rw [Store.tableOf_queried, hrest, List.length_drop]
        have := hl 0
        omega
      obtain ⟨pages, s', hwalk, hneighbors, hcount⟩ :=
        ih _ hfewer s.queried (fun k => limits (k + 1)) (fun k => hl (k + 1)) (some text) (some position) hindex hr
          hstart rfl
      refine ⟨_, s', Walk.next hpage hc hwalk, ?_, ?_⟩
      · rw [List.flatMap_cons, hneighbors, pageFrom]
        dsimp only
        rw [Table.neighborsAlong, Table.neighborsAlong, edgesAlong_eq_append hrest, EdgeSide.farEnds_append,
          Store.tableOf_queried]
      · intro limit hconst
        rw [hn, hconst 0] at hlong
        rw [List.length_cons, hcount limit fun k => hconst (k + 1), Store.tableOf_queried, hrest, List.length_drop, hn,
          hconst 0]
        exact (pageCount_of_lt (hconst 0 ▸ hl 0) hlong).symm

/-- From one place under the same limits there is one walk. -/
theorem Walk.unique {r : EdgeReader} {root : String} {side : EdgeSide} {limits : Nat → Nat} {s s' s'' : Store}
    {cursor : Option String} {pages pages' : List EdgePage} (h : Walk r root side limits s cursor pages s')
    (h' : Walk r root side limits s cursor pages' s'') : pages = pages' ∧ s' = s'' := by
  induction h generalizing pages' s'' with
  | last hpage hlast =>
    cases h' with
    | last hpage' _ =>
      obtain ⟨hok, rfl⟩ := Prod.mk.inj (hpage.symm.trans hpage')
      exact ⟨congrArg ([·]) (Except.ok.inj hok), rfl⟩
    | next hpage' hnext' _ =>
      obtain ⟨hok, -⟩ := Prod.mk.inj (hpage.symm.trans hpage')
      rw [← Except.ok.inj hok, hlast] at hnext'
      exact absurd hnext' (Option.some_ne_none _).symm
  | next hpage hnext _ ih =>
    cases h' with
    | last hpage' hlast' =>
      obtain ⟨hok, -⟩ := Prod.mk.inj (hpage.symm.trans hpage')
      rw [← Except.ok.inj hok, hnext] at hlast'
      exact absurd hlast' (Option.some_ne_none _)
    | next hpage' hnext' hrest' =>
      obtain ⟨hok, rfl⟩ := Prod.mk.inj (hpage.symm.trans hpage')
      obtain rfl := Except.ok.inj hok
      obtain rfl := Option.some.inj (hnext.symm.trans hnext')
      obtain ⟨rfl, hstore⟩ := ih hrest'
      exact ⟨rfl, hstore⟩

end EdgeReader

end PropertyGraph
