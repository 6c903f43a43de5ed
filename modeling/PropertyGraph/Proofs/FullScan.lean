import PropertyGraph.Proofs.ByteOrder
import PropertyGraph.Proofs.Walk

/-!
# Paged traversal is a full scan

A scan looks at every row of a table and takes the far ends of the live edges that have the name of a side and begin at
a node (`Table.Links`), each once, by the order of their bytes (`Table.IsScan`). A walk over pages of any limits comes
to the same list, and so does the traversal of all pages (`EdgeReader.paged_traversal_is_full_scan`).
-/

namespace PropertyGraph

/-- Whether a table has a live edge of the name of a side that leads from one node to another. -/
def Table.Links (t : Table) (now : Int64) (side : EdgeSide) (near far : String) : Prop :=
  ∃ row ∈ t.rows, ∃ e, Record.ofAttributes row.attributes = .ok (.edge e) ∧ isOver e.ttl now = false ∧
    e.name = side.edgeName ∧
    side.near e = near ∧ side.far e = far

/-- Whether a list is what a scan of a table finds at the other end of a side: the ids that are not empty and to which
a live edge leads, each once, their bytes strictly ascending. -/
structure Table.IsScan (t : Table) (now : Int64) (root : String) (side : EdgeSide) (ids : List String) : Prop where
  ascending : ids.Pairwise fun a b => ByteOrder.bytes a < ByteOrder.bytes b
  mem_iff : ∀ id, id ∈ ids ↔ id ≠ "" ∧ t.Links now side root id

/-- A table has a live edge from one node to another along a side where it is among the edges along the side. -/
theorem Table.links_iff {t : Table} {now : Int64} {side : EdgeSide} {near far : String} :
    t.Links now side near far ↔ ∃ e ∈ t.edgesAlong now near side none, e.name = side.edgeName ∧ side.far e = far := by
  constructor
  · rintro ⟨row, hrow, e, hrecord, hlive, hname, hnear, hfar⟩
    exact ⟨e, (mem_edgesAlong_iff hname).mpr ⟨row, hrow, hrecord, hlive, hnear⟩, hname, hfar⟩
  · rintro ⟨e, he, hname, hfar⟩
    obtain ⟨row, hrow, hrecord, hlive, hnear⟩ := (mem_edgesAlong_iff hname).mp he
    exact ⟨row, hrow, e, hrecord, hlive, hname, hnear, hfar⟩

/-- The neighbors of a node along a side that come after a start are the ids that are not empty, to which a live edge
leads and whose places are after the start. -/
theorem Table.mem_neighborsAlong_from {t : Table} {now : Int64} {root : String} {side : EdgeSide}
    {start : Option (List String)} {id : String} : id ∈ t.neighborsAlong now root side start ↔
      id ≠ "" ∧ t.Links now side root id ∧ Query.isAfter start (side.placeOf root id) = true := by
  rw [neighborsAlong, EdgeSide.farEnds, List.mem_filter, List.mem_map, decide_eq_true_iff, and_comm]
  refine and_congr_right ?_
  intro _
  constructor
  · rintro ⟨e, he, rfl⟩
    obtain ⟨hedge, hname⟩ := List.mem_filter.mp he
    rw [beq_iff_eq] at hname
    obtain ⟨row, halong, hseen⟩ := List.mem_filterMap.mp hedge
    obtain ⟨hrecord, hlive⟩ := Row.liveEdge?_eq_some_iff.mp hseen
    obtain ⟨hrow, hnear, hafter⟩ := (mem_along_of_edge hrecord hname).mp halong
    exact ⟨⟨row, hrow, e, hrecord, hlive, hname, hnear, rfl⟩, hafter⟩
  · rintro ⟨⟨row, hrow, e, hrecord, hlive, hname, hnear, rfl⟩, hafter⟩
    have halong := (mem_along_of_edge hrecord hname).mpr ⟨hrow, hnear, hafter⟩
    refine ⟨e, List.mem_filter.mpr ⟨List.mem_filterMap.mpr ⟨row, halong, ?_⟩, beq_iff_eq.mpr hname⟩, rfl⟩
    exact Row.liveEdge?_eq_some_iff.mpr ⟨hrecord, hlive⟩

/-- The neighbors of a node along a side are the ids that are not empty and to which a live edge leads. -/
theorem Table.mem_neighborsAlong_iff {t : Table} {now : Int64} {root : String} {side : EdgeSide} {id : String} :
    id ∈ t.neighborsAlong now root side none ↔ id ≠ "" ∧ t.Links now side root id := by
  rw [mem_neighborsAlong_from, Query.isAfter, and_iff_left rfl]

/-- The neighbors of a node along a side are what a scan finds. -/
theorem Table.isScan_neighborsAlong (t : Table) (now : Int64) (root : String) (side : EdgeSide) :
    t.IsScan now root side (t.neighborsAlong now root side none) where
  ascending := (t.neighborsAlong_ascending now root side none).imp ByteOrder.bytes_lt
  mem_iff _ := mem_neighborsAlong_iff

/-- There is only one list that a scan finds. -/
theorem Table.IsScan.unique {t : Table} {now : Int64} {root : String} {side : EdgeSide} {ids others : List String}
    (h : t.IsScan now root side ids) (h' : t.IsScan now root side others) : ids = others :=
  SortedAux.eq_of_ascending h.ascending h'.ascending fun id => (h.mem_iff id).trans (h'.mem_iff id).symm

namespace EdgeReader

/-- Paged traversal is a full scan. In a readable table, whatever the limits of its pages are, the walk from the start
ends, and the neighbors of its pages are those that a scan finds; the traversal of all pages finds the same and leaves
no cursor. Under one limit the walk takes as many pages as the rows make up whose data type begins with the name of the
edge, those that have expired included. -/
theorem paged_traversal_is_full_scan {r : EdgeReader} {s : Store} (root : String) (side : EdgeSide)
    (hindex : r.indexName = s.indexName) (hr : (s.tableOf r.table).IsReadable) :
    ∃ ids, (s.tableOf r.table).IsScan r.now root side ids ∧
      (∀ limits : Nat → Nat, (∀ k, 0 < limits k) →
        ∃ pages s', r.Walk root side limits s none pages s' ∧ pages.flatMap EdgePage.neighbors = ids) ∧
      (∀ limit, 0 < limit →
        ∃ pages s', r.Walk root side (fun _ => limit) s none pages s' ∧
          pages.length = pageCount ((s.tableOf r.table).rows.countP (Row.isAlong root side)) limit) ∧
      ∀ limit, 0 < limit → ∃ page s', r.all s root side limit none = (.ok page, s') ∧ page.neighbors = ids ∧
        page.cursor = none := by
  refine ⟨_, Table.isScan_neighborsAlong _ r.now root side, ?_, ?_, ?_⟩
  · intro limits hl
    obtain ⟨pages, s', hwalk, hneighbors, -⟩ := walk_from r root side s limits hl none none hindex hr startOf_none
    exact ⟨pages, s', hwalk, hneighbors⟩
  · intro limit hl
    obtain ⟨pages, s', hwalk, -, hcount⟩ := walk_from r root side s (fun _ => limit) (fun _ => hl) none none hindex hr
      startOf_none
    exact ⟨pages, s', hwalk, Table.length_along _ root side ▸ hcount limit fun _ => rfl⟩
  · intro limit hl
    obtain ⟨s', hall, -⟩ := all_eq root side hindex hr hl startOf_none
    exact ⟨_, s', hall, rfl, rfl⟩

end EdgeReader

/-! ## A small store -/

namespace Sample

/-- Whom a user follows. -/
def follows : EdgeSide := ⟨⟨"User", "follows"⟩, "User", "follow", false, .many, true, ⟨"User", "followers"⟩⟩

/-- Who follows a user. -/
def followers : EdgeSide := ⟨⟨"User", "followers"⟩, "User", "follow", false, .many, false, ⟨"User", "follows"⟩⟩

/-- One user follows three others, one of them no longer, and is followed by one. -/
def following : Store :=
  Store.holding "edge-dataType" "graph"
    [.edge ⟨"ann", "follow", "cid", "User", default, some 5⟩, .edge ⟨"ann", "follow", "dan", "User", default, none⟩,
      .edge ⟨"ann", "follow", "bob", "User", default, some 20⟩, .edge ⟨"dan", "follow", "ann", "User", default, none⟩]

theorem following_isReadable : following.IsReadable := by
  refine Store.isReadable_holding _ _ ?_
  intro r hr
  simp only [List.mem_cons, List.not_mem_nil, or_false] at hr
  rcases hr with rfl | rfl | rfl | rfl <;> exact trivial

/-- Of those three a walk and a traversal find the two whose edges are live, from two pages of two rows. -/
theorem following_pages :
    let r : EdgeReader := ⟨"graph", "edge-dataType", 10⟩
    r.indexName = following.indexName ∧ (following.tableOf r.table).IsReadable ∧
      (∃ pages s', r.Walk "ann" follows (fun _ => 2) following none pages s' ∧
        pages.flatMap EdgePage.neighbors = ["bob", "dan"]) ∧
      (∃ pages s', r.Walk "ann" follows (fun _ => 2) following none pages s' ∧ pages.length = 2) ∧
      ∃ page s', r.all following "ann" follows 2 none = (.ok page, s') ∧ page.neighbors = ["bob", "dan"] ∧
        page.cursor = none := by
  intro r
  have hindex : r.indexName = following.indexName := by decide +kernel
  obtain ⟨ids, hscan, hwalk, hcount, hall⟩ :=
    EdgeReader.paged_traversal_is_full_scan (r := r) (s := following) "ann" follows hindex
      (following_isReadable "graph")
  have hids : ids = ["bob", "dan"] := by
    rw [hscan.unique (Table.isScan_neighborsAlong ..)]
    decide +kernel
  have hrows : EdgeReader.pageCount ((following.tableOf r.table).rows.countP (Row.isAlong "ann" follows)) 2 = 2 := by
    decide +kernel
  have hpages := hcount 2 (by decide)
  rw [hrows] at hpages
  exact ⟨hindex, following_isReadable "graph", hids ▸ hwalk (fun _ => 2) (fun _ => by decide), hpages,
    hids ▸ hall 2 (by decide)⟩

end Sample

end PropertyGraph
