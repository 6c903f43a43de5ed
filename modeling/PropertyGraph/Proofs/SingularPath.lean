import PropertyGraph.Proofs.Deleting
import PropertyGraph.Proofs.FilteredPath

/-!
# The singular traversal

The singular traversal reads pages until one of them names a neighbor, and answers with the first of these that is live
(`Engine.connection_eq`). It asks for the nodes only then: where the first page that names neighbors names none that is
live, it answers with none, whatever comes after it. So its answer is the first node of the plural traversal exactly
where that page has a live node or no page has one (`Engine.connection_is_first_iff`).
-/

namespace PropertyGraph

/-! ## Settings and limits -/

/-- A limit that is positive where nothing is asked for is positive whatever is asked for. -/
theorem limitOr_pos {usual : Nat} (h : 0 < usual) (given : Option Nat) : 0 < limitOr usual given := by
  cases given with
  | none => exact h
  | some limit =>
    rcases Nat.eq_zero_or_pos limit with rfl | hl
    · exact h
    · rw [limitOr_some usual hl]
      exact hl

/-! ## The first page that names a neighbor -/

/-- The neighbors of the first page that names any. -/
def EdgePage.firstNamed : List EdgePage → List String
  | [] => []
  | page :: rest => if page.neighbors = [] then firstNamed rest else page.neighbors

/-- The neighbors of all pages begin with those of the first page that names any. -/
theorem EdgePage.firstNamed_prefix (pages : List EdgePage) : firstNamed pages <+: pages.flatMap EdgePage.neighbors := by
  induction pages with
  | nil => exact List.prefix_refl _
  | cons page rest ih =>
    rw [firstNamed, List.flatMap_cons]
    split
    next hempty =>
      rw [hempty]
      exact ih
    · exact List.prefix_append ..

namespace EdgeReader

variable {r : EdgeReader} {s : Store} {root : String} {side : EdgeSide} {limit : Nat}

/-- A page of neighbors from a cursor is the page of edges after the key of the cursor. -/
theorem fetch_of_page {cursor : Option String} {key : Option StartKey} {page : EdgePage} {s' : Store}
    (hkey : Cursor.decodeOptional cursor = .ok key) (hpage : r.page s root side limit cursor = (.ok page, s')) :
    ∃ f, (r.fetch s (r.query root side limit key)).1 = .ok f ∧ (r.fetch s (r.query root side limit key)).2 = s' ∧
      page = ⟨side.neighbors f.edges, f.edges, f.next.map Cursor.encode⟩ := by
  rw [EdgeReader.page, hkey] at hpage
  dsimp only at hpage
  cases hfetch : r.fetch s (r.query root side limit key) with
  | mk answer after =>
    rw [hfetch] at hpage
    obtain ⟨hanswer, hstore⟩ := Prod.mk.inj hpage
    cases answer with
    | error e => exact absurd hanswer (by simp [Except.map])
    | ok f => exact ⟨f, rfl, hstore, (Except.ok.inj hanswer).symm⟩

/-- Reading until a neighbor is found reads the pages of the walk, up to the first that names one. -/
theorem Walk.firstNeighbors_eq {limits : Nat → Nat} {s' : Store} {cursor : Option String} {pages : List EdgePage}
    (h : r.Walk root side limits s cursor pages s') (hconst : ∀ k, limits k = limit) {key : Option StartKey}
    (hkey : Cursor.decodeOptional cursor = .ok key) :
    ∃ s'', r.firstNeighbors s side (r.query root side limit key) = (.ok (EdgePage.firstNamed pages), s'') ∧
      s.OnlyQueried s'' := by
  induction h generalizing key with
  | @last limits s s' cursor page hpage hlast =>
    rw [hconst 0] at hpage
    obtain ⟨-, hqueried⟩ := nodup_of_page hpage
    obtain ⟨f, hfetch, rfl, rfl⟩ := fetch_of_page hkey hpage
    have hnone : f.next = none := Option.map_eq_none_iff.mp hlast
    refine ⟨_, ?_, hqueried⟩
    rw [firstNeighbors_stop hfetch (Or.inl hnone), EdgePage.firstNamed, EdgePage.firstNamed]
    dsimp only
    split
    next hempty => rw [hempty]
    · rfl
  | @next limits s s' s'' cursor page text pages hpage hnext _ ih =>
    rw [hconst 0] at hpage
    obtain ⟨-, hqueried⟩ := nodup_of_page hpage
    obtain ⟨f, hfetch, rfl, rfl⟩ := fetch_of_page hkey hpage
    obtain ⟨last, hlast, rfl⟩ := Option.map_eq_some_iff.mp hnext
    rw [EdgePage.firstNamed]
    by_cases hempty : side.neighbors f.edges = []
    · obtain ⟨after, hrest, hqueried'⟩ := ih (fun k => hconst (k + 1)) (Cursor.decodeOptional_encode last)
      refine ⟨after, ?_, hqueried.trans hqueried'⟩
      rw [if_pos hempty, firstNeighbors_next hfetch hlast hempty]
      exact hrest
    · exact ⟨_, by rw [if_neg hempty]; exact firstNeighbors_stop hfetch (Or.inr hempty), hqueried⟩

end EdgeReader

/-! ## The answer -/

namespace Engine

variable {e : Engine} {s : Store} {now : Int64} {r : ConnectionRequest} {side : EdgeSide} {root : String}

/-- The singular traversal answers with the first live one of the neighbors at which it stops reading. -/
theorem connection_eq {ids : List String} {s' : Store} (hresolve : e.resolve r = .ok (side, root))
    (hread : (e.reader now).firstNeighbors s side
      ((e.reader now).query root side (limitOr e.settings.query.singularLimit r.arguments.limit) none) = (.ok ids, s'))
    (hnodup : ids.Nodup) (hr : s'.IsReadable) (hfault : s'.throttledCalls = 0) :
    e.connection s now r = (.ok ((s'.tableOf e.table).shown now ids).head?, s') := by
  obtain ⟨hs, hmost⟩ := (Settings.ranges_of_validate e.valid).1
  rw [connection, hresolve]
  dsimp only
  rw [hread]
  dsimp only
  rw [look, hydrate_eq now ids (hr e.table) hfault hs hmost]
  dsimp only
  rw [orderByIds_filterMap hnodup fun _ _ => Table.id_of_liveNode?, ← List.head?_map]
  rfl

/-- The singular traversal answers with the first live node of the first page that names a neighbor, none where that
page names no live one. In a store that came about by what engines do, and with no request throttled, this is the first
node of the plural traversal, whatever the size of its pages is, exactly where that page names a live node or the
plural traversal shows none at all. -/
theorem connection_is_first_iff {size : Nat} (hs : s.Reached) (hfault : s.throttledCalls = 0)
    (hindex : e.settings.store.edgeIndexName = s.indexName) (hresolve : e.resolve r = .ok (side, root))
    (hsize : 0 < size) :
    ∃ read pages s' s'' answer after,
      (e.reader now).Walk root side (fun _ => limitOr e.settings.query.singularLimit r.arguments.limit) s none read s' ∧
      e.Walk now r size s none pages s'' ∧ e.connection s now r = (.ok answer, after) ∧
      answer = ((s.tableOf e.table).shown now (EdgePage.firstNamed read)).head? ∧
      (answer = (pages.flatMap ConnectionPage.edges).head? ↔
        ((s.tableOf e.table).shown now (EdgePage.firstNamed read) = [] → pages.flatMap ConnectionPage.edges = [])) := by
  have hr : s.IsReadable := hs.isReadable
  have hlimit := limitOr_pos (Settings.singularLimit_of_validate e.valid) r.arguments.limit
  obtain ⟨read, s', hread, hneighbors, -⟩ := EdgeReader.walk_from (e.reader now) root side s
    (fun _ => limitOr e.settings.query.singularLimit r.arguments.limit) (fun _ => hlimit) none none hindex (hr e.table)
    EdgeReader.startOf_none
  obtain ⟨all, s'', hall, hneighbors', -⟩ := EdgeReader.walk_from (e.reader now) root side s (fun _ => size)
    (fun _ => hsize) none none
    hindex (hr e.table) EdgeReader.startOf_none
  obtain ⟨pages, hpages, hedges⟩ := walk_of_reader hsize hresolve hr hfault (fun _ => rfl) hall
  obtain ⟨after, hfirst, calls, rfl⟩ := hread.firstNeighbors_eq (fun _ => rfl) rfl
  obtain ⟨rest, hrest⟩ := EdgePage.firstNamed_prefix read
  rw [hneighbors', ← hneighbors, ← hrest, Table.shown_append] at hedges
  have hnodup : (EdgePage.firstNamed read).Nodup := by
    have hasc := (s.tableOf (e.reader now).table).neighborsAlong_ascending (e.reader now).now root side none
    rw [← hneighbors, ← hrest] at hasc
    exact (hasc.imp fun {_ _} hlt => Std.ne_of_lt hlt).sublist (List.sublist_append_left ..)
  refine ⟨read, pages, s', s'', _, _, hread, hpages, connection_eq hresolve hfirst hnodup hr hfault, rfl, ?_⟩
  rw [hedges, show ∀ calls, ({ s with queryCalls := calls } : Store).tableOf e.table =
    s.tableOf e.table from fun _ => rfl]
  cases (s.tableOf e.table).shown now (EdgePage.firstNamed read) with
  | nil =>
    cases (s.tableOf e.table).shown now rest with
    | nil => exact ⟨fun _ _ => rfl, fun _ => rfl⟩
    | cons node others =>
      exact ⟨fun heq => absurd heq.symm (Option.some_ne_none _), fun h => absurd (h rfl) (List.cons_ne_nil _ _)⟩
  | cons node others => exact ⟨fun _ h => absurd h (List.cons_ne_nil _ _), fun _ => rfl⟩

end Engine

namespace Sample

/-- Asks for one of those whom the new user follows. -/
def firstFollowed : ConnectionRequest where
  typeName := "User"
  field := "follows"
  source := some (.object [("id", .string "eve")])
  arguments := { limit := some 1 }

theorem created_isFaultless : created.IsFaultless := by
  rw [created_eq]
  exact ⟨by decide +kernel, by decide +kernel, by decide +kernel⟩

/-- The store in which one of those whom the new user follows was deleted right after. -/
def withoutGus : Store := (users.delete created 5 { target := .ofId "gus" }).2

/-- The deletion marked the row of that user, and no other. -/
theorem withoutGus_marks : created.Marks withoutGus users.table (Row.isDeletedBy "gus" 5 5) 5 := by
  obtain ⟨s', hdelete, hmarks⟩ := softDelete_eq created_isFaultless users.table
    (Settings.ranges_of_validate users.valid).2 "gus" 5 5
  have hstore : withoutGus = s' := by
    rw [withoutGus, Engine.delete]
    exact congrArg Prod.snd hdelete
  exact hstore ▸ hmarks

theorem withoutGus_reached : withoutGus.Reached :=
  .delete (.create (.empty "edge-dataType") users (fresh 0) ⟨0, 0⟩ "User" newcomer) users 5 _

theorem withoutGus_indexName : users.settings.store.edgeIndexName = withoutGus.indexName := by
  rw [withoutGus_marks.index, created_eq]
  decide +kernel

theorem tableOf_withoutGus : withoutGus.tableOf users.table =
    ((putNew (Store.empty "edge-dataType") users.table
      (Branch.recordsOf [newcomers (users.grower ⟨0, 0⟩).stamp])).2.tableOf users.table).markWhere
        (Row.isDeletedBy "gus" 5 5) 5 := by
  rw [withoutGus_marks.marked, created_eq]

/-- The first page of one row names the deleted user alone. -/
theorem firstNamed_withoutGus {read : List EdgePage} {s' : Store}
    (h : (users.reader 5).Walk "eve" follows (fun _ => 1) withoutGus none read s') :
    EdgePage.firstNamed read = ["gus"] := by
  have hpage : (users.reader 5).page withoutGus "eve" follows 1 none =
      (.ok ((users.reader 5).pageFrom (withoutGus.tableOf users.table) "eve" follows 1 none), withoutGus.queried) :=
    EdgeReader.page_eq "eve" withoutGus_indexName (withoutGus_reached.isReadable users.table) (by decide)
      EdgeReader.startOf_none
  have hfar : ((users.reader 5).pageFrom (withoutGus.tableOf users.table) "eve" follows 1 none).neighbors =
      ["gus"] := by
    rw [tableOf_withoutGus]
    decide +kernel
  cases h with
  | last h _ | next h _ _ =>
    obtain ⟨hok, -⟩ := Prod.mk.inj (h.symm.trans hpage)
    rw [Except.ok.inj hok, EdgePage.firstNamed, hfar]
    rfl

theorem shown_gus : (withoutGus.tableOf users.table).shown 5 ["gus"] = [] := by
  have hgone : (withoutGus.tableOf users.table).liveNode? 5 "gus" = none := by
    rw [← Option.isNone_iff_eq_none, tableOf_withoutGus]
    decide +kernel
  rw [Table.shown, List.filterMap_cons, hgone]
  rfl

theorem head?_shown_withoutGus : ((withoutGus.tableOf users.table).shown 5
    ((withoutGus.tableOf users.table).neighborsAlong 5 "eve" follows none)).head?.bind (·.string? Attribute.id) =
      some "hal" := by
  have hids : (withoutGus.tableOf users.table).neighborsAlong 5 "eve" follows none = ["gus", "hal"] := by
    rw [tableOf_withoutGus]
    decide +kernel
  rw [hids, tableOf_withoutGus]
  decide +kernel

/-- The singular traversal misses the second of those whom the new user follows, since it stops at the page of the
first, who was deleted; the plural traversal shows the second. -/
theorem live_follower_is_missed :
    withoutGus.Reached ∧ withoutGus.throttledCalls = 0 ∧
      users.settings.store.edgeIndexName = withoutGus.indexName ∧
      users.resolve firstFollowed = .ok (follows, "eve") ∧
      ∃ pages s' s'', users.Walk 5 firstFollowed 1 withoutGus none pages s' ∧
        users.connection withoutGus 5 firstFollowed = (.ok none, s'') ∧
        (pages.flatMap ConnectionPage.edges).head?.bind (·.string? Attribute.id) = some "hal" := by
  have hr := withoutGus_reached.isReadable
  have hfault := withoutGus_marks.faultless.throttled
  have hresolve : users.resolve firstFollowed = .ok (follows, "eve") := rfl
  refine ⟨withoutGus_reached, hfault, withoutGus_indexName, hresolve, ?_⟩
  obtain ⟨read, s', hread, hneighbors, -⟩ := EdgeReader.walk_from (users.reader 5) "eve" follows withoutGus
    (fun _ => 1) (fun _ => by decide) none none withoutGus_indexName (hr users.table) EdgeReader.startOf_none
  obtain ⟨pages, hpages, hedges⟩ := Engine.walk_of_reader (by decide) hresolve hr hfault (fun _ => rfl) hread
  obtain ⟨s'', hfirst, calls, rfl⟩ := hread.firstNeighbors_eq (fun _ => rfl) rfl
  refine ⟨pages, s', { withoutGus with queryCalls := calls }, hpages, ?_, ?_⟩
  · rw [firstNamed_withoutGus hread] at hfirst
    rw [Engine.connection_eq hresolve hfirst (List.nodup_singleton "gus") hr hfault]
    exact congrArg (fun nodes : List Fields => (Response.ok nodes.head?, { withoutGus with queryCalls := calls }))
      shown_gus
  · rw [hedges, hneighbors]
    exact head?_shown_withoutGus

/-- What the singular traversal answers before that deletion, beside the plural one in pages of two nodes. -/
theorem firstFollowed_beside_pages :
    ∃ read pages s' s'' answer after,
      (users.reader 5).Walk "eve" follows (fun _ => 1) created none read s' ∧
      users.Walk 5 firstFollowed 2 created none pages s'' ∧
      users.connection created 5 firstFollowed = (.ok answer, after) ∧
      answer = ((created.tableOf users.table).shown 5 (EdgePage.firstNamed read)).head? ∧
      (answer = (pages.flatMap ConnectionPage.edges).head? ↔
        ((created.tableOf users.table).shown 5 (EdgePage.firstNamed read) = [] →
          pages.flatMap ConnectionPage.edges = [])) := by
  have hresolve : users.resolve firstFollowed = .ok (follows, "eve") := rfl
  exact Engine.connection_is_first_iff created_reached created_isFaultless.throttled created_indexName hresolve
    Nat.two_pos

end Sample

end PropertyGraph
