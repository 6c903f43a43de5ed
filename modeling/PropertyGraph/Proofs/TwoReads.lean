import PropertyGraph.Proofs.Listing
import PropertyGraph.Proofs.Pairing
import PropertyGraph.Proofs.Symmetry

/-!
# Two ways to read the neighbors

To get a node lists its neighbors from the rows of edges alone; a traversal also looks the neighbors up and shows those
that are live. So the walk over all pages of a traversal shows exactly those listed neighbors that are live and have an
id which is not empty (`Engine.walk_shows_live_listed`). A deletion marks the rows in the partition of the node that is
deleted. An edge lies in the partition of its principal end, so that from the other end it goes with the neighbor, and
there the two ways agree after every history; from the principal end a deleted neighbor is still listed, and not shown.
-/

namespace PropertyGraph

/-! ## Fields of their own -/

/-- Where no two sides share a field, the one with the field of a side is that side. -/
theorem filter_field_eq {side : EdgeSide} {sides : List EdgeSide}
    (h : sides.Pairwise fun a b => a.owner.field ≠ b.owner.field) (hside : side ∈ sides) :
    sides.filter (fun other => other.owner.field == side.owner.field) = [side] := by
  induction sides with
  | nil => exact absurd hside List.not_mem_nil
  | cons first rest ih =>
    obtain ⟨hfirst, hrest⟩ := List.pairwise_cons.mp h
    rw [List.filter_cons]
    rcases List.mem_cons.mp hside with rfl | hside
    · rw [if_pos (beq_self_eq_true _), List.cons.injEq]
      refine ⟨rfl, List.filter_eq_nil_iff.mpr ?_⟩
      intro other hother hsame
      exact hfirst other hother (beq_iff_eq.mp hsame).symm
    · rw [if_neg fun hsame => hfirst side hside (beq_iff_eq.mp hsame)]
      exact ih hrest hside

/-- The side behind a field that one side of a type alone has is that side. -/
theorem Schema.side?_of_only {s : Schema} {typeName : String} {side : EdgeSide}
    (honly : (s.sidesOf typeName).filter (fun other => other.owner.field == side.owner.field) = [side]) :
    s.side? typeName side.owner.field = some side := by
  rw [side?_eq_find?_sidesOf, ← List.head?_filter, honly]
  rfl

/-! ## What callers see -/

/-- No request names the node whose id is empty. -/
theorem ConnectionRequest.rootId?_ne_empty (r : ConnectionRequest) : r.rootId? ≠ some "" := by
  intro h
  rw [rootId?] at h
  rcases Option.or_eq_some_iff.mp h with hsource | ⟨-, htarget⟩
  · simpa using (Option.filter_eq_some_iff.mp hsource).2
  · obtain ⟨target, -, hnamed⟩ := Option.bind_eq_some_iff.mp htarget
    simpa using (Option.filter_eq_some_iff.mp hnamed).2

namespace Table

variable {t : Table} {now : Int64} {q : Record → Prop}

/-- A table whose rows are those of records has the record of each row that stands for one. -/
theorem Every.has_of_row (h : t.Every (Fields.IsRowOf q)) {row : Row} (hrow : row ∈ t.rows) {r : Record}
    (hread : Record.ofAttributes row.attributes = .ok r) : t.Has r := by
  obtain ⟨found, hfound, hattributes, -⟩ := h.exists_has hrow
  rw [hattributes, found.ofAttributes_toAttributes hfound.1] at hread
  exact Except.ok.inj hread ▸ hfound

/-- The id that callers see of a live node is its id. -/
theorem string?_id_toOutput (h : t.Every (Fields.IsRowOf q)) {id : String} {n : Node}
    (hn : t.liveNode? now id = some n) : n.toOutput.string? Attribute.id = some id := by
  obtain ⟨attributes, hattributes, hnode⟩ := Option.bind_eq_some_iff.mp hn
  obtain ⟨row, hrow, rfl⟩ := Option.map_eq_some_iff.mp hattributes
  have hhas := h.has_of_row (key_of_get? hrow).1 (Fields.liveNode?_eq_some_iff.mp hnode).1
  rw [Node.toOutput_eq hhas.1, id_of_liveNode? hn]
  rfl

/-- The ids that callers see are those that have a live node. -/
theorem ids_shown (h : t.Every (Fields.IsRowOf q)) (now : Int64) (ids : List String) :
    (t.shown now ids).filterMap (·.string? Attribute.id) = ids.filter fun id => (t.liveNode? now id).isSome := by
  induction ids with
  | nil => rfl
  | cons id rest ih =>
    rw [shown] at ih ⊢
    rw [List.filterMap_cons, List.filter_cons]
    cases hn : t.liveNode? now id with
    | none => simpa [hn] using ih
    | some n => simpa [hn, string?_id_toOutput h hn] using ih

/-- In a whole table an edge is seen only while the node is in whose partition it lies. -/
theorem IsWhole.liveNode?_isSome {used : List String} {last : Int64} (h : t.IsWhole used last) (hlater : last ≤ now)
    {e : Edge} (he : t.Has (.edge e)) (hlive : isOver e.ttl now = false) : (t.liveNode? now e.id).isSome = true := by
  obtain ⟨⟨n, hn, hid⟩, -⟩ := h.ends e he
  obtain ⟨row, hrow, hkey, hread⟩ := hn.exists_row
  have hnode := liveNode?_of_mem hrow hkey hread (h.live e n he hn hid now hlater hlive)
  rw [← hid, hnode]
  rfl

/-- Of a link there is an edge that is seen. -/
theorem IsWhole.exists_edge_of_links {used : List String} {last : Int64} (h : t.IsWhole used last) {side : EdgeSide}
    {near far : String} (hlinks : t.Links now side near far) :
    ∃ e, t.Has (.edge e) ∧ isOver e.ttl now = false ∧ side.far e = far := by
  obtain ⟨row, hrow, e, hread, hlive, -, -, hfar⟩ := hlinks
  exact ⟨e, h.records.has_of_row hrow hread, hlive, hfar⟩

/-- In a whole table there is the row of a node at the far end of every link. -/
theorem IsWhole.get?_isSome_of_links {used : List String} {last : Int64} (h : t.IsWhole used last) {side : EdgeSide}
    {near far : String} (hlinks : t.Links now side near far) : (t.get? (Key.node far)).isSome = true := by
  obtain ⟨e, he, -, rfl⟩ := h.exists_edge_of_links hlinks
  obtain ⟨hid, hneighbor⟩ := h.ends e he
  have hnode : t.HasNode (side.far e) := by
    rw [EdgeSide.far]
    split
    · exact hneighbor
    · exact hid
  obtain ⟨row, hrow, hkey⟩ := (hasNode_iff h.records).mp hnode
  rw [← hkey, get?_of_mem hrow]
  rfl

/-- In a whole table the node at the far end of a link is live if its partition holds the edge. -/
theorem IsWhole.liveNode?_isSome_of_links {used : List String} {last : Int64} (h : t.IsWhole used last)
    (hlater : last ≤ now) {side : EdgeSide} (hprincipal : side.principal = false) {near far : String}
    (hlinks : t.Links now side near far) : (t.liveNode? now far).isSome = true := by
  obtain ⟨e, he, hlive, rfl⟩ := h.exists_edge_of_links hlinks
  rw [EdgeSide.far, hprincipal, if_neg Bool.false_ne_true]
  exact h.liveNode?_isSome hlater he hlive

end Table

/-! ## Both ways -/

/-- The ids of the nodes on the pages of a walk. -/
def ConnectionPage.ids (pages : List ConnectionPage) : List String :=
  (pages.flatMap ConnectionPage.edges).filterMap (·.string? Attribute.id)

namespace Engine

variable {e : Engine} {s : Store} {now : Int64} {id : String} {n : Node} {side : EdgeSide} {r : ConnectionRequest}
  {size : Nat}

/-- The walk over all pages of a traversal ends, and shows the ids that are linked along the side, are not empty and
have a live node. -/
theorem walk_shows_live (hs : s.Reached) (hfault : s.throttledCalls = 0)
    (hindex : e.settings.store.edgeIndexName = s.indexName) (hresolve : e.resolve r = .ok (side, id))
    (hsize : 0 < size) :
    ∃ pages after, e.Walk now r size s none pages after ∧ ∀ other, other ∈ ConnectionPage.ids pages ↔
      (s.tableOf e.table).Links now side id other ∧ other ≠ "" ∧
        ((s.tableOf e.table).liveNode? now other).isSome = true := by
  obtain ⟨read, after, hread, hneighbors, -⟩ := EdgeReader.walk_from (e.reader now) id side s (fun _ => size)
    (fun _ => hsize) none none hindex
    (hs.isReadable e.table) EdgeReader.startOf_none
  obtain ⟨pages, hpages, hedges⟩ := walk_of_reader hsize hresolve hs.isReadable hfault (fun _ => rfl) hread
  refine ⟨pages, after, hpages, ?_⟩
  intro other
  rw [ConnectionPage.ids, hedges, Table.ids_shown (hs.every_isRowOf e.table), List.mem_filter, hneighbors]
  have hlinks : other ∈ (s.tableOf e.table).neighborsAlong now id side none ↔
      other ≠ "" ∧ (s.tableOf e.table).Links now side id other := Table.mem_neighborsAlong_iff
  constructor
  · rintro ⟨hmem, hlive⟩
    obtain ⟨hne, hlinked⟩ := hlinks.mp hmem
    exact ⟨hlinked, hne, hlive⟩
  · rintro ⟨hlinked, hne, hlive⟩
    exact ⟨hlinks.mpr ⟨hne, hlinked⟩, hlive⟩

/-- Two ways to read the neighbors of a live node along a side, where no two sides of its type share a field:
1. Getting the node lists items under the field of the side, and the walk over all pages of the traversal ends.
2. The walk shows the ids that are listed, but for the empty one and those that have no live node.
3. After a history without faults every id that is listed has the row of a node; and along a side that is not principal
   each is live, so that there the walk shows all that is listed but the empty id. -/
theorem walk_shows_live_listed (hs : s.Reached) (hfault : s.throttledCalls = 0)
    (hindex : e.settings.store.edgeIndexName = s.indexName) (hn : (s.tableOf e.table).liveNode? now id = some n)
    (hfields : (e.schema.sidesOf n.typeName).Pairwise fun a b => a.owner.field ≠ b.owner.field)
    (hside : side ∈ e.schema.sidesOf n.typeName) (htype : r.typeName = n.typeName)
    (hfield : r.field = side.owner.field) (hroot : r.rootId? = some id) (hsize : 0 < size) :
    ∃ out items pages after after', e.get s now id = (.ok (some out), after) ∧
      out.lookup side.owner.field = some (EdgeItem.listed items) ∧ e.Walk now r size s none pages after' ∧
      (∀ other, other ∈ ConnectionPage.ids pages ↔
        other ∈ items.map EdgeItem.id ∧ other ≠ "" ∧ ((s.tableOf e.table).liveNode? now other).isSome = true) ∧
      ∀ used last, s.History used last → last ≤ now →
        (∀ other ∈ items.map EdgeItem.id, (s.get? e.table (Key.node other)).isSome = true) ∧
        (side.principal = false →
          ∀ other, other ∈ ConnectionPage.ids pages ↔ other ∈ items.map EdgeItem.id ∧ other ≠ "") := by
  have honly := filter_field_eq hfields hside
  have hresolve : e.resolve r = .ok (side, id) := by
    rw [resolve, htype, hfield, Schema.side?_of_only honly, hroot]
  obtain ⟨out, after, hget, hlookup⟩ := get_listed hindex (hs.isReadable e.table) hfault hn honly
  obtain ⟨pages, after', hwalk, hshown⟩ := walk_shows_live hs hfault hindex hresolve hsize
  have hlisted : ∀ other, other ∈ ((s.tableOf e.table).listed e.schema now n side).map EdgeItem.id ↔
      (s.tableOf e.table).Links now side id other := by
    intro other
    rw [← Table.id_of_liveNode? hn]
    exact Table.mem_listed_iff (Table.live_of_liveNode? hn) hside
  refine ⟨out, _, pages, after, after', hget, hlookup, hwalk, ?_, ?_⟩
  · intro other
    rw [hshown, hlisted]
  · intro used last hhistory hlater
    have hwhole := hhistory.isWhole.tables e.table
    constructor
    · intro other hother
      have hnode := hwhole.get?_isSome_of_links ((hlisted other).mp hother)
      rwa [Store.get?, Option.isSome_map]
    · intro hprincipal other
      rw [hshown, hlisted]
      refine and_congr_right ?_
      intro hlinks
      exact and_iff_left (hwhole.liveNode?_isSome_of_links hlater hprincipal hlinks)

end Engine

namespace Sample

/-- Asks for whom a user follows. -/
def followedBy (id : String) : ConnectionRequest where
  typeName := "User"
  field := "follows"
  source := some (.object [("id", .string id)])

/-- The history of the new user, one of those whom the user followed being deleted. -/
theorem withoutGus_history : ∃ used, withoutGus.History used 5 := by
  have hcreated : created.History _ 0 := .create (.empty "edge-dataType" 0) users (fresh 0) ⟨0, 0⟩ "User" newcomer
    (Std.le_refl 0)
    fun _ _ => List.not_mem_nil
  exact ⟨_, .delete hcreated users 5 _ (by decide)⟩

/-- What the store holds in which one was deleted whom the new user followed. -/
theorem withoutGus_holds : withoutGus.Reached ∧ withoutGus.throttledCalls = 0 ∧
    users.settings.store.edgeIndexName = withoutGus.indexName ∧
    ((withoutGus.tableOf users.table).liveNode? 5 "eve").map Node.typeName = some "User" ∧
    (withoutGus.tableOf users.table).Links 5 follows "eve" "gus" ∧
    (withoutGus.tableOf users.table).Links 5 follows "eve" "hal" ∧
    ((withoutGus.tableOf users.table).liveNode? 5 "gus").isSome = false ∧
    ((withoutGus.tableOf users.table).liveNode? 5 "hal").isSome = true := by
  have hmarks := withoutGus_marks
  have hindex : users.settings.store.edgeIndexName = withoutGus.indexName := by
    rw [hmarks.index, created_eq]
    decide +kernel
  refine ⟨.delete (.create (.empty "edge-dataType") users (fresh 0) ⟨0, 0⟩ "User" newcomer) users 5 _,
    hmarks.faultless.throttled, hindex, ?_⟩
  rw [Table.links_iff, Table.links_iff, hmarks.marked, created_eq]
  decide +kernel

/-- A user lists the ids that are linked along a side of the users. -/
theorem lists_linked {s : Store} {id other : String} {side : EdgeSide} (hs : s.Reached)
    (hfault : s.throttledCalls = 0) (hindex : users.settings.store.edgeIndexName = s.indexName)
    (huser : ((s.tableOf users.table).liveNode? 5 id).map Node.typeName = some "User")
    (hside : side ∈ users.schema.sidesOf "User") (hlinks : (s.tableOf users.table).Links 5 side id other) :
    ∃ out items after, users.get s 5 id = (.ok (some out), after) ∧
      out.lookup side.owner.field = some (EdgeItem.listed items) ∧
      other ∈ items.map EdgeItem.id := by
  obtain ⟨n, hn, htype⟩ := Option.map_eq_some_iff.mp huser
  have hfields : (users.schema.sidesOf "User").Pairwise fun a b => a.owner.field ≠ b.owner.field := by decide
  obtain ⟨out, after, hget, hlookup⟩ :=
    Engine.get_listed hindex (hs.isReadable _) hfault hn (htype ▸ filter_field_eq hfields hside)
  refine ⟨out, _, after, hget, hlookup, ?_⟩
  rw [Table.mem_listed_iff (Table.live_of_liveNode? hn) (htype ▸ hside), Table.id_of_liveNode? hn]
  exact hlinks

/-- A follower whose follows lead to an id without a live node, or to the empty one, lists it, and the walk does not
show it. -/
theorem lists_without_showing {s : Store} {id other : String} (hs : s.Reached) (hfault : s.throttledCalls = 0)
    (hindex : users.settings.store.edgeIndexName = s.indexName)
    (huser : ((s.tableOf users.table).liveNode? 5 id).map Node.typeName = some "User")
    (hroot : (followedBy id).rootId? = some id) (hlinks : (s.tableOf users.table).Links 5 follows id other)
    (hgone : other = "" ∨ ((s.tableOf users.table).liveNode? 5 other).isSome = false) :
    ∃ out items pages after after', users.get s 5 id = (.ok (some out), after) ∧
      out.lookup "follows" = some (EdgeItem.listed items) ∧
      users.Walk 5 (followedBy id) 1 s none pages after' ∧ other ∈ items.map EdgeItem.id ∧
      other ∉ ConnectionPage.ids pages := by
  have hfound : users.schema.side? (followedBy id).typeName (followedBy id).field = some follows := rfl
  have hresolve : users.resolve (followedBy id) = .ok (follows, id) := by
    rw [Engine.resolve, hfound, hroot]
  obtain ⟨out, items, after, hget, hlookup, hlisted⟩ := lists_linked hs hfault hindex huser (by decide) hlinks
  obtain ⟨pages, after', hwalk, hshown⟩ := Engine.walk_shows_live hs hfault hindex hresolve Nat.one_pos
  refine ⟨out, items, pages, after, after', hget, hlookup, hwalk, hlisted, ?_⟩
  intro hmem
  obtain ⟨-, hne, hlive⟩ := (hshown other).mp hmem
  rcases hgone with rfl | hgone
  · exact hne rfl
  · rw [hgone] at hlive
    exact Bool.false_ne_true hlive

/-- Getting the new user still lists the one who was deleted, and getting a follower of the user with the empty id
lists that user; the walks show neither. Getting the user with the empty id lists its followers, and no request names
it. -/
theorem reads_part_ways : users.schema.IsDistinct ∧
    ((∃ used, withoutGus.History used 5) ∧
      ∃ out items pages after after', users.get withoutGus 5 "eve" = (.ok (some out), after) ∧
        out.lookup "follows" = some (EdgeItem.listed items) ∧
        users.Walk 5 (followedBy "eve") 1 withoutGus none pages after' ∧
        "gus" ∈ items.map EdgeItem.id ∧ "gus" ∉ ConnectionPage.ids pages) ∧
    (∃ used, unnamedFollowed.History used 0) ∧
    (∃ out items pages after after', users.get unnamedFollowed 5 "abe" = (.ok (some out), after) ∧
      out.lookup "follows" = some (EdgeItem.listed items) ∧
      users.Walk 5 (followedBy "abe") 1 unnamedFollowed none pages after' ∧
      "" ∈ items.map EdgeItem.id ∧ "" ∉ ConnectionPage.ids pages) ∧
    (∃ out items after, users.get unnamedFollowed 5 "" = (.ok (some out), after) ∧
      out.lookup "followers" = some (EdgeItem.listed items) ∧ "abe" ∈ items.map EdgeItem.id) ∧
    ∀ r : ConnectionRequest, r.rootId? ≠ some "" := by
  obtain ⟨hreached, hfault, hindex, huser, hgus, -, hgone, -⟩ := withoutGus_holds
  have hunnamed : unnamedFollowed.throttledCalls = 0 ∧ users.settings.store.edgeIndexName = unnamedFollowed.indexName ∧
      ((unnamedFollowed.tableOf users.table).liveNode? 5 "abe").map Node.typeName = some "User" ∧
      (unnamedFollowed.tableOf users.table).Links 5 follows "abe" "" ∧
      ((unnamedFollowed.tableOf users.table).liveNode? 5 "").map Node.typeName = some "User" := by
    rw [Table.links_iff, unnamedFollowed_eq]
    decide +kernel
  obtain ⟨hfault', hindex', habe, hlinks, hempty⟩ := hunnamed
  refine ⟨users_isDistinct, ⟨withoutGus_history, ?_⟩,
    ⟨_, .upsert (.empty "edge-dataType" 0) users (later 0) ⟨0, 0⟩ "User" _ (by decide)⟩,
    ?_, ?_, ConnectionRequest.rootId?_ne_empty⟩
  · exact lists_without_showing hreached hfault hindex huser rfl hgus (Or.inr hgone)
  · exact lists_without_showing unnamedFollowed_reached hfault' hindex' habe rfl hlinks (Or.inl rfl)
  · have hback : (unnamedFollowed.tableOf users.table).Links 5 followers "" "abe" :=
      (Table.links_comm rfl rfl (by decide)).mp hlinks
    exact lists_linked unnamedFollowed_reached hfault' hindex' hempty (by decide) hback

/-- The walk over whom the new user follows shows of those whom getting that user lists the one who was not deleted. -/
theorem walk_shows_hal : withoutGus.Reached ∧ withoutGus.throttledCalls = 0 ∧
    users.settings.store.edgeIndexName = withoutGus.indexName ∧ (followedBy "eve").rootId? = some "eve" ∧
    ∃ out items pages after after', users.get withoutGus 5 "eve" = (.ok (some out), after) ∧
      out.lookup "follows" = some (EdgeItem.listed items) ∧
      users.Walk 5 (followedBy "eve") 1 withoutGus none pages after' ∧
      (∀ other, other ∈ ConnectionPage.ids pages ↔
        other ∈ items.map EdgeItem.id ∧ other ≠ "" ∧
        ((withoutGus.tableOf users.table).liveNode? 5 other).isSome = true) ∧
      ∀ other ∈ items.map EdgeItem.id, (withoutGus.get? users.table (Key.node other)).isSome = true := by
  obtain ⟨hreached, hfault, hindex, huser, -⟩ := withoutGus_holds
  obtain ⟨n, hn, htype⟩ := Option.map_eq_some_iff.mp huser
  have hsides : (users.schema.sidesOf "User").Pairwise fun a b => a.owner.field ≠ b.owner.field := by decide
  have hside : follows ∈ users.schema.sidesOf "User" := by decide
  obtain ⟨used, hhistory⟩ := withoutGus_history
  obtain ⟨out, items, pages, after, after', hget, hlookup, hwalk, hshown, hafter⟩ :=
    Engine.walk_shows_live_listed hreached hfault hindex hn (htype ▸ hsides) (htype ▸ hside) (r := followedBy "eve")
      htype.symm rfl rfl
      Nat.one_pos
  exact ⟨hreached, hfault, hindex, rfl, out, items, pages, after, after', hget, hlookup, hwalk, hshown,
    (hafter used 5 hhistory (Std.le_refl 5)).1⟩

end Sample

end PropertyGraph
