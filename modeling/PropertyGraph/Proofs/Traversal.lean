import PropertyGraph.Proofs.Cursor
import PropertyGraph.Proofs.Readable
import PropertyGraph.Traversal

/-!
# What a traversal reads

A traversal reads the rows along a side, in the order of its view (`Table.along`), and takes from them the edges that
have not expired (`Table.edgesAlong`). Where every row of a table stands for a record, these are the live edges at the
node whose data types begin with the name of the side (`Table.mem_edgesAlong`). The neighbors among them strictly
ascend (`Table.neighborsAlong_ascending`), so that leaving out repeated ones leaves out none.
-/

namespace PropertyGraph

/-- The edge of a row, where the row stands for one that is live. -/
def Row.liveEdge? (now : Int64) (row : Row) : Option Edge :=
  match Record.ofAttributes row.attributes with
  | .ok (.edge e) => if isOver e.ttl now then none else some e
  | _ => none

/-- The view in which the edges from a side are read. -/
def EdgeSide.view (side : EdgeSide) : View := if side.principal then .table else .edgeIndex

/-- Whether a row lies in the partition of a node, as a side sees it, and its data type begins with the name of the
side's edges. -/
def Row.isAlong (root : String) (side : EdgeSide) (row : Row) : Bool :=
  (if side.principal then row.key.id == root else row.attributes.string? Attribute.edge == some root) &&
    (side.edgeName ++ sortSeparator).toList.isPrefixOf row.key.dataType.toList

/-- The place after which a traversal continues that is given a cursor. -/
def EdgeSide.startOf (side : EdgeSide) (cursor : Option String) : Except GraphError (Option (List String)) :=
  match Cursor.decodeOptional cursor with
  | .error e => .error e
  | .ok none => .ok none
  | .ok (some key) => (side.view.startPosition key).map some

/-- Two states of a store that differ in nothing but how many queries were asked for. -/
def Store.OnlyQueried (s s' : Store) : Prop := ∃ calls, s' = { s with queryCalls := calls }

/-! ## Live edges of rows -/

namespace Row

variable {row : Row} {now : Int64} {e : Edge}

/-- A row has a live edge where it stands for that edge and the edge has not expired. -/
theorem liveEdge?_eq_some_iff :
    row.liveEdge? now = some e ↔ Record.ofAttributes row.attributes = .ok (.edge e) ∧ isOver e.ttl now = false := by
  unfold liveEdge?
  split
  next f hf =>
    rw [hf, Except.ok.injEq, Record.edge.injEq, Option.ite_none_left_eq_some, Option.some.injEq, Bool.not_eq_true]
    constructor
    · rintro ⟨hlive, rfl⟩
      exact ⟨rfl, hlive⟩
    · rintro ⟨rfl, hlive⟩
      exact ⟨hlive, rfl⟩
  next hne =>
    simp only [reduceCtorEq, false_iff, not_and]
    intro h
    exact absurd h (hne e)

/-- The row of an edge has the key of the edge. -/
theorem key_of_edge (h : Record.ofAttributes row.attributes = .ok (.edge e)) : row.key = ⟨e.id, e.sortKey⟩ := by
  obtain ⟨hid, htype, -⟩ := Record.ofAttributes_edge_iff.mp h
  have hkey := row.carries
  rw [Fields.key?, hid, htype, Option.some.injEq] at hkey
  exact hkey.symm

theorem neighbor_of_edge (h : Record.ofAttributes row.attributes = .ok (.edge e)) :
    row.attributes.string? Attribute.edge = some e.neighbor :=
  (Record.ofAttributes_edge_iff.mp h).2.2.1

/-- A row of a live edge is kept by a query that leaves out expired rows. -/
theorem keeps_of_liveEdge {q : Query} (hq : q.ttlAbove = some now) (h : row.liveEdge? now = some e) :
    q.keeps row = true := by
  obtain ⟨hedge, hlive⟩ := liveEdge?_eq_some_iff.mp h
  have httl := (Record.ofAttributes_edge_iff.mp hedge).2.2.2.1
  unfold readTtl at httl
  unfold Query.keeps
  rw [hq]
  split at httl
  next hnone => rw [hnone]; rfl
  next t hsome =>
    rw [hsome]
    rw [Except.ok.injEq] at httl
    have hover : isOver e.ttl now = decide (t ≤ now) := by rw [← httl, isOver]
    rw [hover, decide_eq_false_iff_not] at hlive
    exact decide_eq_true (Std.not_le.mp hlive)
  · simp at httl

/-- The row of an edge is along a side where the edge begins at the node and its data type begins with the name. -/
theorem isAlong_of_edge {root : String} {side : EdgeSide} (h : Record.ofAttributes row.attributes = .ok (.edge e)) :
    row.isAlong root side = (side.near e == root &&
      (side.edgeName ++ sortSeparator).toList.isPrefixOf e.sortKey.toList) := by
  rw [isAlong, key_of_edge h, neighbor_of_edge h, EdgeSide.near]
  cases side.principal <;> simp

end Row

/-- An edge of the name of a side has a data type that begins with that name. -/
theorem Edge.isPrefixOf_sortKey {e : Edge} {name : String} (h : e.name = name) :
    (name ++ sortSeparator).toList.isPrefixOf e.sortKey.toList = true := by
  have hkey : e.sortKey.toList = (name ++ sortSeparator).toList ++ e.neighbor.toList := by
    rw [Edge.sortKey, h, String.toList_append]
  rw [List.isPrefixOf_iff_prefix, hkey]
  exact List.prefix_append ..

/-- The live edges of rows that stand for records. -/
theorem liveEdges_eq {now : Int64} {rows : List Row} (h : ∀ row ∈ rows, row.attributes.IsRecord) :
    liveEdges now rows = .ok (rows.filterMap (Row.liveEdge? now)) := by
  induction rows with
  | nil => rfl
  | cons row rest ih =>
    obtain ⟨record, hrecord⟩ := h row (List.mem_cons_self ..)
    have hrest := ih fun other ho => h other (List.mem_cons_of_mem _ ho)
    rw [liveEdges, List.filterMap_cons, Row.liveEdge?, hrecord]
    cases record with
    | node n => exact hrest
    | edge e =>
      dsimp only
      cases isOver e.ttl now with
      | true => exact hrest
      | false => rw [if_neg Bool.false_ne_true, if_neg Bool.false_ne_true, hrest]; rfl

/-- A query that leaves out expired rows leaves out no live edge. -/
theorem filterMap_filter_keeps {q : Query} {now : Int64} (hq : q.ttlAbove = some now) (rows : List Row) :
    (rows.filter q.keeps).filterMap (Row.liveEdge? now) = rows.filterMap (Row.liveEdge? now) := by
  induction rows with
  | nil => rfl
  | cons row rest ih =>
    rw [List.filterMap_cons (a := row)]
    by_cases hk : q.keeps row = true
    · rw [List.filter_cons_of_pos hk, List.filterMap_cons, ih]
    · rw [List.filter_cons_of_neg hk, ih]
      cases he : row.liveEdge? now with
      | none => rfl
      | some e => exact absurd (Row.keeps_of_liveEdge hq he) hk

/-! ## Rows along a side -/

namespace Table

/-- What a query comes to depends on no more than its partition and what the data types begin with. -/
theorem ahead_congr (t : Table) {q q' : Query} (hp : q.partition = q'.partition)
    (hs : q.sortBeginning = q'.sortBeginning) (view : View) (start : Option (List String)) :
    t.ahead q view start = t.ahead q' view start := by
  have hreaches : q.reaches view start = q'.reaches view start := by
    funext row
    unfold Query.reaches
    split
    next position _ =>
      have hcovers : q.covers position = q'.covers position := by
        unfold Query.covers
        rw [hp, hs]
      rw [hcovers]
    · rfl
  cases view <;> simp only [ahead, hreaches]

/-- The rows along a side of a node that come after a place, in the order of the side's view. -/
def along (t : Table) (root : String) (side : EdgeSide) (start : Option (List String)) : List Row :=
  t.ahead { Query.ofTable root with sortBeginning := side.edgeName ++ sortSeparator } side.view start

theorem along_ascending (t : Table) (root : String) (side : EdgeSide) (start : Option (List String)) :
    (t.along root side start).Pairwise (side.view.place · < side.view.place ·) :=
  t.ahead_ascending _ _ _

/-- The rows along a side are those of the partition of the node that begin with the name of the side's edges. -/
theorem mem_along {t : Table} {root : String} {side : EdgeSide} {row : Row} :
    row ∈ t.along root side none ↔ row ∈ t.rows ∧ row.isAlong root side = true := by
  rw [along, mem_ahead]
  refine and_congr_right ?_
  intro _
  rw [Query.reaches, EdgeSide.view, Row.isAlong]
  cases side.principal with
  | true => simp [View.position?, Query.covers, Query.isAfter, Query.ofTable]
  | false =>
    cases h : row.attributes.string? Attribute.edge with
    | none => simp [View.position?, h]
    | some edge => simp [View.position?, h, Query.covers, Query.isAfter, Query.ofTable]

theorem mem_rows_of_mem_along {t : Table} {root : String} {side : EdgeSide} {start : Option (List String)} {row : Row}
    (h : row ∈ t.along root side start) : row ∈ t.rows := (mem_ahead.mp h).1

/-- Every row along a side that comes after a place is along the side. -/
theorem isAlong_of_mem_along {t : Table} {root : String} {side : EdgeSide} {start : Option (List String)} {row : Row}
    (h : row ∈ t.along root side start) : row.isAlong root side = true := by
  obtain ⟨hrow, hreach⟩ := mem_ahead.mp h
  obtain ⟨position, hp, hcovers, -⟩ := QueryAux.of_reaches hreach
  refine (mem_along (t := t).mp (mem_ahead.mpr ⟨hrow, ?_⟩)).2
  rw [Query.reaches, hp]
  dsimp only
  rw [hcovers]
  rfl

/-- How many rows are along a side. -/
theorem length_along (t : Table) (root : String) (side : EdgeSide) :
    (t.along root side none).length = t.rows.countP (Row.isAlong root side) := by
  rw [along, length_ahead]
  refine List.countP_congr ?_
  intro row hrow
  have h : row ∈ t.along root side none ↔ row ∈ t.rows ∧ row.isAlong root side = true := mem_along
  rw [along, mem_ahead] at h
  simpa [hrow] using h

/-- A row along a side has a place in the side's view. -/
theorem position_of_mem_along {t : Table} {root : String} {side : EdgeSide} {start : Option (List String)} {row : Row}
    (h : row ∈ t.along root side start) : side.view.position? row = some (side.view.place row) := by
  obtain ⟨position, hp, -, -⟩ := QueryAux.of_reaches (mem_ahead.mp h).2
  rw [hp, View.place_eq hp]

end Table

/-! ## Neighbors -/

/-- Texts behind one beginning are ordered as they are without it. -/
theorem append_lt_append_iff {front a b : String} : front ++ a < front ++ b ↔ a < b := by
  have hmono : ∀ {a b : String}, a < b → front ++ a < front ++ b := by
    intro a b h
    have hlist : (front ++ a).toList < (front ++ b).toList := by
      rw [String.toList_append, String.toList_append]
      exact List.append_left_lt h
    exact hlist
  refine ⟨fun h => Classical.byContradiction fun hab => ?_, hmono⟩
  by_cases hba : b < a
  · exact Std.lt_irrefl (Std.lt_trans h (hmono hba))
  · exact Std.lt_irrefl (SortedAux.eq_of_not_lt hab hba ▸ h)

/-- Of ids that do not repeat, only the empty one is left out. -/
theorem distinctIds_eq_filter {ids seen : List String} (hn : ids.Nodup) (hs : ∀ id ∈ ids, id ∉ seen) :
    distinctIds seen ids = ids.filter (· ≠ "") := by
  induction ids generalizing seen with
  | nil => rfl
  | cons id rest ih =>
    obtain ⟨hid, hrest⟩ := List.nodup_cons.mp hn
    have hseen : id ∉ seen := hs id (List.mem_cons_self ..)
    rw [distinctIds, List.filter_cons]
    by_cases he : id = ""
    · rw [if_pos (Or.inl he), if_neg (by simp [he])]
      exact ih hrest fun other ho => hs other (List.mem_cons_of_mem _ ho)
    · rw [if_neg (by simp [he, hseen]), if_pos (by simp [he])]
      refine congrArg (id :: ·) (ih hrest fun other ho hmem => ?_)
      rcases List.mem_cons.mp hmem with rfl | hmem
      · exact hid ho
      · exact hs other (List.mem_cons_of_mem _ ho) hmem

/-- The live edges of the rows along a side of a node. -/
def Table.edgesAlong (t : Table) (now : Int64) (root : String) (side : EdgeSide) (start : Option (List String)) :
    List Edge :=
  (t.along root side start).filterMap (Row.liveEdge? now)

/-- The edges along a side of a node are the live ones which begin at the node and whose data type begins with the
name. -/
theorem Table.mem_edgesAlong {t : Table} {now : Int64} {root : String} {side : EdgeSide} {e : Edge} :
    e ∈ t.edgesAlong now root side none ↔
      ∃ row ∈ t.rows, Record.ofAttributes row.attributes = .ok (.edge e) ∧ isOver e.ttl now = false ∧
        side.near e = root ∧
        (side.edgeName ++ sortSeparator).toList.isPrefixOf e.sortKey.toList = true := by
  rw [edgesAlong, List.mem_filterMap]
  refine exists_congr ?_
  intro row
  rw [mem_along, Row.liveEdge?_eq_some_iff]
  constructor
  · rintro ⟨⟨hrow, halong⟩, hedge, hlive⟩
    rw [Row.isAlong_of_edge hedge, Bool.and_eq_true, beq_iff_eq] at halong
    exact ⟨hrow, hedge, hlive, halong.1, halong.2⟩
  · rintro ⟨hrow, hedge, hlive, hnear, hbeginning⟩
    refine ⟨⟨hrow, ?_⟩, hedge, hlive⟩
    rw [Row.isAlong_of_edge hedge, Bool.and_eq_true, beq_iff_eq]
    exact ⟨hnear, hbeginning⟩

/-- An edge of the name of a side is along it where it is live and begins at the node. -/
theorem Table.mem_edgesAlong_iff {t : Table} {now : Int64} {root : String} {side : EdgeSide} {e : Edge}
    (hname : e.name = side.edgeName) :
    e ∈ t.edgesAlong now root side none ↔
      ∃ row ∈ t.rows, Record.ofAttributes row.attributes = .ok (.edge e) ∧ isOver e.ttl now = false ∧
        side.near e = root := by
  rw [mem_edgesAlong]
  constructor
  · rintro ⟨row, hrow, hedge, hlive, hnear, -⟩
    exact ⟨row, hrow, hedge, hlive, hnear⟩
  · rintro ⟨row, hrow, hedge, hlive, hnear⟩
    exact ⟨row, hrow, hedge, hlive, hnear, Edge.isPrefixOf_sortKey hname⟩

/-- The ends to which those edges lead that have the name of a side, the empty one left out. -/
def EdgeSide.farEnds (side : EdgeSide) (edges : List Edge) : List String :=
  ((edges.filter fun e => e.name == side.edgeName).map side.far).filter (· ≠ "")

theorem EdgeSide.farEnds_append (side : EdgeSide) (edges more : List Edge) :
    side.farEnds (edges ++ more) = side.farEnds edges ++ side.farEnds more := by
  simp only [farEnds, List.filter_append, List.map_append]

/-- The place in the view of a side at which the edge from one node to another along it stands. -/
def EdgeSide.placeOf (side : EdgeSide) (near far : String) : List String :=
  if side.principal then [near, side.edgeName ++ sortSeparator ++ far]
    else [near, side.edgeName ++ sortSeparator ++ near, far]

/-- At one node the places of the edges along a side are ordered as the ids to which they lead. -/
theorem EdgeSide.placeOf_lt_iff (side : EdgeSide) {near a b : String} :
    side.placeOf near a < side.placeOf near b ↔ a < b := by
  unfold placeOf
  split
  · simp only [List.cons_lt_cons_iff, and_false, or_false, Std.lt_irrefl, false_or, true_and]
    exact append_lt_append_iff
  · simp only [List.cons_lt_cons_iff, and_false, or_false, Std.lt_irrefl, false_or, true_and]

/-- The row of an edge of the name of a side stands, in the view of the side, at the place of that edge. -/
theorem Row.position_of_edge {row : Row} {e : Edge} {side : EdgeSide}
    (h : Record.ofAttributes row.attributes = .ok (.edge e)) (hname : e.name = side.edgeName) :
    side.view.position? row = some (side.placeOf (side.near e) (side.far e)) := by
  unfold EdgeSide.view EdgeSide.placeOf EdgeSide.near EdgeSide.far
  cases side.principal with
  | true => simp only [if_true, View.position?, Row.key_of_edge h, Edge.sortKey, hname]
  | false =>
    simp only [Bool.false_eq_true, if_false, View.position?, Row.neighbor_of_edge h, Row.key_of_edge h,
      Edge.sortKey, hname, Option.map_some]

/-- The row of an edge of the name of a side is along the side of a node and after a start where the edge begins at the
node and its place is after the start. -/
theorem Table.mem_along_of_edge {t : Table} {root : String} {side : EdgeSide} {start : Option (List String)}
    {row : Row} {e : Edge} (h : Record.ofAttributes row.attributes = .ok (.edge e)) (hname : e.name = side.edgeName) :
    row ∈ t.along root side start ↔
      row ∈ t.rows ∧ side.near e = root ∧ Query.isAfter start (side.placeOf root (side.far e)) = true := by
  have hposition := Row.position_of_edge h hname
  constructor
  · intro hrow
    have halong := isAlong_of_mem_along hrow
    rw [Row.isAlong_of_edge h, Bool.and_eq_true, beq_iff_eq] at halong
    obtain ⟨hmem, hreaches⟩ := mem_ahead.mp hrow
    obtain ⟨position, hp, -, hafter⟩ := QueryAux.of_reaches hreaches
    obtain rfl := Option.some.inj (hposition.symm.trans hp)
    exact ⟨hmem, halong.1, halong.1 ▸ hafter⟩
  · rintro ⟨hmem, rfl, hafter⟩
    have hfirst : row ∈ t.along (side.near e) side none := by
      rw [mem_along, Row.isAlong_of_edge h, Edge.isPrefixOf_sortKey hname, beq_self_eq_true]
      exact ⟨hmem, rfl⟩
    obtain ⟨-, hreaches⟩ := mem_ahead.mp hfirst
    obtain ⟨position, hp, hcovers, -⟩ := QueryAux.of_reaches hreaches
    obtain rfl := Option.some.inj (hposition.symm.trans hp)
    refine mem_ahead.mpr ⟨hmem, ?_⟩
    rw [Query.reaches, hposition]
    exact Bool.and_eq_true_iff.mpr ⟨hcovers, hafter⟩

/-- Of two live edges of the name of a side, at one node, the one whose row comes first leads to the smaller id. -/
theorem far_lt_far {now : Int64} {root : String} {side : EdgeSide} {a b : Row} {e f : Edge}
    (ha : a.liveEdge? now = some e) (hb : b.liveEdge? now = some f) (hra : a.isAlong root side = true)
    (hrb : b.isAlong root side = true) (hea : e.name = side.edgeName) (heb : f.name = side.edgeName)
    (h : side.view.place a < side.view.place b) : side.far e < side.far f := by
  have hedge := (Row.liveEdge?_eq_some_iff.mp ha).1
  have hedge' := (Row.liveEdge?_eq_some_iff.mp hb).1
  rw [Row.isAlong_of_edge hedge, Bool.and_eq_true, beq_iff_eq] at hra
  rw [Row.isAlong_of_edge hedge', Bool.and_eq_true, beq_iff_eq] at hrb
  rw [View.place_eq (Row.position_of_edge hedge hea), View.place_eq (Row.position_of_edge hedge' heb), hra.1,
    hrb.1] at h
  exact side.placeOf_lt_iff.mp h

/-- The ends to which live edges along a side lead, the empty one included, strictly ascend. -/
theorem Table.far_ascending (t : Table) (now : Int64) (root : String) (side : EdgeSide) {rows : List Row}
    {start : Option (List String)} (h : rows.Sublist (t.along root side start)) :
    (((rows.filterMap (Row.liveEdge? now)).filter fun e => e.name == side.edgeName).map side.far).Pairwise (· < ·) := by
  have hasc := (t.along_ascending root side start).sublist h
  rw [List.pairwise_map, List.pairwise_filter, List.pairwise_filterMap]
  refine List.Pairwise.imp_of_mem ?_ hasc
  intro a b ha hb hlt e he f hf hname hname'
  exact far_lt_far he hf (isAlong_of_mem_along (h.subset ha)) (isAlong_of_mem_along (h.subset hb)) (beq_iff_eq.mp hname)
    (beq_iff_eq.mp hname') hlt

/-- The neighbors among rows along a side are their far ends, each of them. -/
theorem Table.neighbors_eq_farEnds (t : Table) (now : Int64) (root : String) (side : EdgeSide) {rows : List Row}
    {start : Option (List String)} (h : rows.Sublist (t.along root side start)) :
    side.neighbors (rows.filterMap (Row.liveEdge? now)) = side.farEnds (rows.filterMap (Row.liveEdge? now)) := by
  have hnodup := (t.far_ascending now root side h).imp fun {a b} hlt => Std.ne_of_lt hlt
  exact distinctIds_eq_filter hnodup fun _ _ hmem => absurd hmem List.not_mem_nil

/-- The neighbors of a node along a side, in the order of the store. -/
def Table.neighborsAlong (t : Table) (now : Int64) (root : String) (side : EdgeSide) (start : Option (List String)) :
    List String :=
  side.farEnds (t.edgesAlong now root side start)

theorem Table.neighborsAlong_ascending (t : Table) (now : Int64) (root : String) (side : EdgeSide)
    (start : Option (List String)) : (t.neighborsAlong now root side start).Pairwise (· < ·) :=
  (t.far_ascending now root side (List.Sublist.refl _)).filter _

end PropertyGraph
