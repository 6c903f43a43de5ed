import PropertyGraph.Proofs.Integrity
import PropertyGraph.Proofs.ReadBack

/-!
# What getting a node lists

To get a node, the edges along every side of its type are read and all of them are put together. A side reads every
edge at the node whose data type begins with its name and two colons, so an edge is read by its own side, by each side
of the same name and direction, by each side whose name begins its own at a colon, and, where it leads from the node to
itself, by the other side as well. Under the field of a side a neighbor is listed once for each side of the type that
reads the edge to it (`Table.count_listed`). So the neighbors that a traversal finds are listed each once exactly where
no edge has a second reader and none leads to the empty id (`Engine.get_lists_per_reader`).
-/

namespace PropertyGraph

/-- Whether a side reads an edge at a node. -/
def EdgeSide.reads (side : EdgeSide) (root : String) (e : Edge) : Bool :=
  side.near e == root && (side.edgeName ++ sortSeparator).toList.isPrefixOf e.sortKey.toList

/-- How many sides of a type read the edge that leads along one of them from one node to another. -/
def Schema.readers (s : Schema) (typeName : String) (side : EdgeSide) (near far : String) : Nat :=
  (s.sidesOf typeName).countP fun other => other.reads near (side.link near far default)

/-! ## Readers -/

namespace EdgeSide

variable {side other : EdgeSide} {e : Edge} {root : String}

/-- Whether an edge is read depends on no more than its name and its ends. -/
theorem reads_eq_link (hname : e.name = side.edgeName) (hnear : side.near e = root) (other : EdgeSide) (stamp : Stamp) :
    other.reads root e = other.reads root (side.link root (side.far e) stamp) := by
  subst hnear
  rw [reads, reads, near, near, link, near, far, Edge.sortKey, Edge.sortKey, hname]
  cases side.principal <;> rfl

/-- A side reads the edges that are made along it. -/
theorem reads_link (side : EdgeSide) (near far : String) (stamp : Stamp) :
    side.reads near (side.link near far stamp) = true := by
  have hname : (side.link near far stamp).name = side.edgeName := by
    rw [link]
    split <;> rfl
  have hnear : side.near (side.link near far stamp) = near := by
    rw [EdgeSide.near, link]
    split <;> rfl
  rw [reads, hnear, beq_self_eq_true, Edge.isPrefixOf_sortKey hname]
  rfl

end EdgeSide

theorem Schema.readers_pos {s : Schema} {typeName : String} {side : EdgeSide} (h : side ∈ s.sidesOf typeName)
    (near far : String) : 0 < s.readers typeName side near far :=
  List.countP_pos_iff.mpr ⟨side, h, side.reads_link near far default⟩

namespace Table

variable {t : Table} {now : Int64} {root : String} {side other : EdgeSide} {e f : Edge}

/-- Two edges that a table has and that share their name and both ends are one edge. -/
theorem edge_eq {a b : Row} (ha : a ∈ t.rows) (hb : b ∈ t.rows) (hea : Record.ofAttributes a.attributes = .ok (.edge e))
    (hfb : Record.ofAttributes b.attributes = .ok (.edge f)) (hid : e.id = f.id) (hname : e.name = f.name)
    (hneighbor : e.neighbor = f.neighbor) : e = f := by
  have hkey : a.key = b.key := by
    rw [Row.key_of_edge hea, Row.key_of_edge hfb, Edge.sortKey, Edge.sortKey, hid, hname, hneighbor]
  rw [eq_of_key ha hb hkey, hfb] at hea
  exact (Record.edge.inj (Except.ok.inj hea)).symm

/-- No edge is read twice along a side. -/
theorem nodup_edgesAlong (t : Table) (now : Int64) (root : String) (side : EdgeSide) (start : Option (List String)) :
    (t.edgesAlong now root side start).Nodup := by
  rw [edgesAlong, List.Nodup, List.pairwise_filterMap]
  refine (t.along_ascending root side start).imp ?_
  rintro a b hlt e he f hf rfl
  have hea := (Row.liveEdge?_eq_some_iff.mp he).1
  have heb := (Row.liveEdge?_eq_some_iff.mp hf).1
  have hplace : side.view.place a = side.view.place b := by
    rw [View.place, View.place]
    cases side.view with
    | table => rw [View.position?, View.position?, Row.key_of_edge hea, Row.key_of_edge heb]
    | edgeIndex =>
      rw [View.position?, View.position?, Row.neighbor_of_edge hea, Row.neighbor_of_edge heb, Row.key_of_edge hea,
        Row.key_of_edge heb]
  exact Std.lt_irrefl (hplace ▸ hlt)

/-- Among the edges that a side reads at a node, the one which leads along some side to an id is there once, where the
first side reads it. -/
theorem countP_edgesAlong {far : String} (hlinks : t.Links now side root far) (other : EdgeSide) :
    (t.edgesAlong now root other none).countP (fun e => side.far e == far && side.isFrom root e) =
      if other.reads root (side.link root far default) then 1 else 0 := by
  obtain ⟨row, hrow, found, hedge, hlive, hname, hnear, hfar⟩ := hlinks
  have hsame : ∀ e ∈ t.edgesAlong now root other none, (side.far e == far && side.isFrom root e) = true ↔
      (e == found) = true := by
    intro e he
    obtain ⟨row', hrow', hedge', -⟩ := mem_edgesAlong.mp he
    rw [EdgeSide.isFrom, Bool.and_eq_true, Bool.and_eq_true, beq_iff_eq, beq_iff_eq, beq_iff_eq, beq_iff_eq]
    constructor
    · rintro ⟨hfar', hname', hnear'⟩
      have hends : e.id = found.id ∧ e.neighbor = found.neighbor := by
        rw [EdgeSide.near] at hnear hnear'
        rw [EdgeSide.far] at hfar hfar'
        cases hp : side.principal <;> simp_all
      exact edge_eq hrow' hrow hedge' hedge hends.1 (hname'.trans hname.symm) hends.2
    · rintro rfl
      exact ⟨hfar, hname, hnear⟩
  rw [List.countP_congr hsame, ← List.count, (t.nodup_edgesAlong now root other none).count, ← hfar,
    ← EdgeSide.reads_eq_link hname hnear other default]
  have hread : found ∈ t.edgesAlong now root other none ↔ other.reads root found = true := by
    rw [mem_edgesAlong, EdgeSide.reads, Bool.and_eq_true, beq_iff_eq]
    constructor
    · rintro ⟨-, -, -, -, hboth⟩
      exact hboth
    · intro hboth
      exact ⟨row, hrow, hedge, hlive, hboth⟩
  simp only [hread]

/-- What is listed under the field of a side when a node is read. -/
def listed (t : Table) (schema : Schema) (now : Int64) (n : Node) (side : EdgeSide) : List EdgeItem :=
  edgeItems now n.id side (t.recordsAt schema now n)

variable {schema : Schema} {n : Node}

/-- What is listed are the edges of the side among all that are read at the node. -/
theorem listed_eq (hn : isOver n.ttl now = false) (schema : Schema) (side : EdgeSide) : t.listed schema now n side =
    (((schema.sidesOf n.typeName).flatMap fun other => t.edgesAlong now n.id other none).filter (side.isFrom n.id)).map
      (side.item n.id) := by
  rw [listed, edgeItems_eq (isExpired_of_mem_recordsAt hn), edgesOf_recordsAt]

/-- Under the field of a side a neighbor that is linked is listed once for each side of the type that reads the edge to
it. -/
theorem count_listed (hn : isOver n.ttl now = false) (schema : Schema) {side : EdgeSide} {id : String}
    (hlinks : t.Links now side n.id id) :
    ((t.listed schema now n side).map EdgeItem.id).count id = schema.readers n.typeName side n.id id := by
  rw [listed_eq hn, List.map_map, List.count, List.countP_map, List.countP_filter]
  rw [Schema.readers]
  generalize schema.sidesOf n.typeName = sides
  induction sides with
  | nil => rfl
  | cons other rest ih =>
    rw [List.flatMap_cons, List.countP_append, ih, List.countP_cons, Nat.add_comm]
    exact congrArg _ (countP_edgesAlong hlinks other)

/-- What is not linked along a side is not listed under its field. -/
theorem links_of_mem_listed (hn : isOver n.ttl now = false) {side : EdgeSide} {id : String}
    (h : id ∈ (t.listed schema now n side).map EdgeItem.id) : t.Links now side n.id id := by
  rw [listed_eq hn, List.map_map] at h
  obtain ⟨e, he, rfl⟩ := List.mem_map.mp h
  obtain ⟨hread, hfrom⟩ := List.mem_filter.mp he
  obtain ⟨other, -, halong⟩ := List.mem_flatMap.mp hread
  obtain ⟨row, hrow, hedge, hlive, -⟩ := mem_edgesAlong.mp halong
  rw [EdgeSide.isFrom, Bool.and_eq_true, beq_iff_eq, beq_iff_eq] at hfrom
  exact ⟨row, hrow, e, hedge, hlive, hfrom.1, hfrom.2, rfl⟩

/-- Under the field of a side of its type a node lists the ids that are linked along the side. -/
theorem mem_listed_iff (hn : isOver n.ttl now = false) {side : EdgeSide} (hside : side ∈ schema.sidesOf n.typeName)
    {id : String} : id ∈ (t.listed schema now n side).map EdgeItem.id ↔ t.Links now side n.id id := by
  refine ⟨links_of_mem_listed hn, ?_⟩
  intro hlinks
  refine List.count_pos_iff.mp ?_
  rw [count_listed hn schema hlinks]
  exact Schema.readers_pos hside n.id id

theorem parent_of_mem_listed {side : EdgeSide} {item : EdgeItem} (h : item ∈ t.listed schema now n side) :
    item.parentId = n.id ∧ item.edgeName = side.edgeName := by
  rw [listed, edgeItems] at h
  obtain ⟨e, -, rfl⟩ := List.mem_map.mp h
  exact ⟨rfl, rfl⟩

end Table

/-! ## Getting a node -/

/-- Of several sides, one that alone has its field stands under it. -/
theorem lookup_foldl_insert_of_only {side : EdgeSide} {sides : List EdgeSide}
    (honly : sides.filter (fun other => other.owner.field == side.owner.field) = [side]) (content : EdgeSide → Value)
    (fields : Fields) :
    (sides.foldl (fun out other => Assoc.insert other.owner.field (content other) out) fields).lookup side.owner.field =
      some (content side) := by
  induction sides generalizing fields with
  | nil => exact absurd honly (by simp)
  | cons first rest ih =>
    rw [List.filter_cons] at honly
    rw [List.foldl_cons]
    by_cases hfield : first.owner.field = side.owner.field
    · rw [if_pos (beq_iff_eq.mpr hfield), List.cons.injEq] at honly
      obtain ⟨rfl, hrest⟩ := honly
      have hothers : ∀ other ∈ rest, first.owner.field ≠ other.owner.field := by
        intro other hother hsame
        exact List.filter_eq_nil_iff.mp hrest other hother (beq_iff_eq.mpr hsame.symm)
      rw [lookup_foldl_insert hothers, Assoc.lookup_insert_self]
    · rw [if_neg (fun hbeq => hfield (beq_iff_eq.mp hbeq))] at honly
      exact ih honly _

namespace Engine

variable {e : Engine} {s : Store} {now : Int64} {id : String} {n : Node} {side : EdgeSide}

/-- What stands under the field of a side, where it alone of the type has that field, when a live node is got from a
readable table. -/
theorem get_listed (hindex : e.settings.store.edgeIndexName = s.indexName) (hr : (s.tableOf e.table).IsReadable)
    (hfault : s.throttledCalls = 0) (hn : (s.tableOf e.table).liveNode? now id = some n)
    (honly : (e.schema.sidesOf n.typeName).filter (fun other => other.owner.field == side.owner.field) = [side]) :
    ∃ out s', e.get s now id = (.ok (some out), s') ∧
      out.lookup side.owner.field = some (EdgeItem.listed ((s.tableOf e.table).listed e.schema now n side)) := by
  obtain ⟨s', hget⟩ := get_eq hindex hr hfault hn
  obtain rfl := Table.id_of_liveNode? hn
  rw [reduce, Table.findRoot_recordsAt (Table.live_of_liveNode? hn), Option.map_some] at hget
  refine ⟨_, s', hget, ?_⟩
  exact lookup_foldl_insert_of_only honly
    (fun other => edgeContent now n.id other ((s.tableOf e.table).recordsAt e.schema now n)) n.toOutput

/-- What getting a live node of a store that came about lists under a field that one side of its type alone has, beside
what the traversal of all pages finds:
1. Getting the node succeeds, and what stands under the field are items that name the node and the edges of the side.
2. A neighbor that is linked along the side is listed once for each side of the type that reads the edge to it.
3. What is not linked along the side is not listed.
4. The neighbors that the traversal finds are listed each once, and no others, exactly where no linked id is empty and
   no edge along the side has a second reader. -/
theorem get_lists_per_reader (hs : s.Reached) (hfault : s.throttledCalls = 0)
    (hindex : e.settings.store.edgeIndexName = s.indexName) (hn : (s.tableOf e.table).liveNode? now id = some n)
    (honly : (e.schema.sidesOf n.typeName).filter (fun other => other.owner.field == side.owner.field) = [side]) :
    ∃ out items page after after', e.get s now id = (.ok (some out), after) ∧
      out.lookup side.owner.field = some (EdgeItem.listed items) ∧
      (∀ item ∈ items, item.parentId = id ∧ item.edgeName = side.edgeName) ∧
      (e.reader now).all s id side e.settings.query.queryAllLimit none = (.ok page, after') ∧
      (∀ other, (s.tableOf e.table).Links now side id other →
        (items.map EdgeItem.id).count other = e.schema.readers n.typeName side id other) ∧
      (∀ other, ¬ (s.tableOf e.table).Links now side id other → (items.map EdgeItem.id).count other = 0) ∧
      ((∀ other, (items.map EdgeItem.id).count other = if other ∈ page.neighbors then 1 else 0) ↔
        ∀ other, (s.tableOf e.table).Links now side id other →
          other ≠ "" ∧ e.schema.readers n.typeName side id other = 1) := by
  have hr := hs.isReadable e.table
  obtain ⟨out, after, hget, hlookup⟩ := get_listed hindex hr hfault hn honly
  obtain ⟨after', hall, -⟩ := EdgeReader.all_eq (r := e.reader now) id side hindex hr
    (Settings.ranges_of_validate e.valid).2
    EdgeReader.startOf_none
  have hlive := Table.live_of_liveNode? hn
  obtain rfl := Table.id_of_liveNode? hn
  have hside : side ∈ e.schema.sidesOf n.typeName :=
    (List.mem_filter.mp (honly ▸ List.mem_singleton.mpr rfl : side ∈ (e.schema.sidesOf n.typeName).filter _)).1
  have hcount := fun other (hlinks : (s.tableOf e.table).Links now side n.id other) =>
    Table.count_listed hlive e.schema hlinks
  have hnone : ∀ other, ¬ (s.tableOf e.table).Links now side n.id other →
      (((s.tableOf e.table).listed e.schema now n side).map EdgeItem.id).count other = 0 := by
    intro other hlinks
    exact List.count_eq_zero.mpr fun hmem => hlinks (Table.links_of_mem_listed hlive hmem)
  have hneighbors : ∀ other, other ∈ (s.tableOf e.table).neighborsAlong now n.id side none ↔
      other ≠ "" ∧ (s.tableOf e.table).Links now side n.id other := fun _ => Table.mem_neighborsAlong_iff
  refine ⟨out, _, _, after, after', hget, hlookup, fun _ hitem => Table.parent_of_mem_listed hitem, hall, hcount,
    hnone, ?_⟩
  constructor
  · intro honce other hlinks
    have hpos := Schema.readers_pos hside n.id other
    have hthis := honce other
    rw [hcount other hlinks] at hthis
    by_cases hmem : other ∈ (s.tableOf e.table).neighborsAlong now n.id side none
    · exact ⟨((hneighbors other).mp hmem).1, hthis.trans (if_pos hmem)⟩
    · rw [hthis.trans (if_neg hmem)] at hpos
      exact absurd hpos (Nat.lt_irrefl 0)
  · intro halone other
    by_cases hlinks : (s.tableOf e.table).Links now side n.id other
    · obtain ⟨hne, hone⟩ := halone other hlinks
      rw [hcount other hlinks, hone]
      exact (if_pos ((hneighbors other).mpr ⟨hne, hlinks⟩)).symm
    · exact (hnone other hlinks).trans (if_neg fun hmem => hlinks ((hneighbors other).mp hmem).2).symm

end Engine

namespace Sample

/-- Getting the new user lists those whom that user follows each once, since no other side of the users reads the edges
to them. -/
theorem followed_are_listed_once : created.Reached ∧ created.throttledCalls = 0 ∧
    users.settings.store.edgeIndexName = created.indexName ∧
    (users.schema.sidesOf "User").filter (fun other => other.owner.field == follows.owner.field) = [follows] ∧
    ∃ n out items page after after', (created.tableOf users.table).liveNode? 5 "eve" = some n ∧
      users.get created 5 "eve" = (.ok (some out), after) ∧ out.lookup "follows" = some (EdgeItem.listed items) ∧
      (users.reader 5).all created "eve" follows users.settings.query.queryAllLimit none = (.ok page, after') ∧
      ∀ other, (items.map EdgeItem.id).count other = if other ∈ page.neighbors then 1 else 0 := by
  have honly : (users.schema.sidesOf "User").filter (fun other => other.owner.field == follows.owner.field) =
      [follows] := by decide
  have hstore : created.throttledCalls = 0 ∧ users.settings.store.edgeIndexName = created.indexName ∧
      ((created.tableOf users.table).liveNode? 5 "eve").map Node.typeName = some "User" ∧
      ((created.tableOf users.table).edgesAlong 5 "eve" follows none).map follows.far = ["gus", "hal"] := by
    rw [created_eq]
    decide +kernel
  obtain ⟨hfault, hindex, huser, hfar⟩ := hstore
  obtain ⟨n, hn, htype⟩ := Option.map_eq_some_iff.mp huser
  obtain ⟨out, items, page, after, after', hget, hlookup, -, hall, -, -, honce⟩ :=
    Engine.get_lists_per_reader created_reached hfault hindex hn (htype ▸ honly)
  refine ⟨created_reached, hfault, hindex, honly, n, out, items, page, after, after', hn, hget, hlookup, hall,
    honce.mpr ?_⟩
  intro other hlinks
  obtain ⟨e, he, -, rfl⟩ := Table.links_iff.mp hlinks
  have hmem : follows.far e ∈ ["gus", "hal"] := hfar ▸ List.mem_map_of_mem he
  rw [htype]
  rcases List.mem_cons.mp hmem with hgus | hmem
  · rw [hgus]
    decide
  · rw [List.mem_singleton.mp hmem]
    decide

/-- The tags of a post. -/
def tags : EdgeSide := ⟨⟨"Post", "tags"⟩, "Tag", "tagged", false, .many, true, ⟨"Tag", "posts"⟩⟩

/-- The main tags of a post, the name of whose edges begins with that of the tags. -/
def mainTags : EdgeSide := ⟨⟨"Post", "mainTags"⟩, "Tag", "tagged::main", false, .many, true, ⟨"Tag", "mainPosts"⟩⟩

/-- Posts and their tags. -/
def mainTagging : Schema :=
  .ofSides [tags, ⟨⟨"Tag", "posts"⟩, "Post", "tagged", false, .many, false, ⟨"Post", "tags"⟩⟩, mainTags,
    ⟨⟨"Tag", "mainPosts"⟩, "Post", "tagged::main", false, .many, false, ⟨"Post", "mainTags"⟩⟩]

/-- The engine of posts and tags. -/
def posts : Engine := graphOf mainTagging rfl

/-- The store with one post that has two main tags. -/
def tagged : Store := (posts.upsert (Store.empty "edge-dataType") (later 0) ⟨0, 0⟩ "Post"
    (joining "eve" "mainTags")).2.1

/-- What was written for the post. -/
theorem tagged_eq : tagged =
    (writeChunk (Store.empty "edge-dataType") posts.table posts.settings.write.retryPolicy.retries
    ((Branch.recordsOf [joined (posts.grower ⟨0, 0⟩).stamp "eve" mainTags]).map Record.toAttributes)).2 :=
  @upsert_joining mainTagging rfl mainTags "eve" (by decide) (by decide) Store _ (.empty "edge-dataType") ⟨0, 0⟩

/-- Getting the post lists each main tag twice, since the query of the tags reads the main tags as well; the traversal
finds each once. -/
theorem main_tags_are_listed_twice :
    (∃ used, tagged.History used 0) ∧ posts.settings.store.edgeIndexName = tagged.indexName ∧
    (mainTagging.sidesOf "Post").filter (fun other => other.owner.field == mainTags.owner.field) = [mainTags] ∧
    ∃ out page after after', posts.get tagged 5 "eve" = (.ok (some out), after) ∧
      out.lookup "mainTags" = some (EdgeItem.listed [⟨"abe", "eve", "tagged::main"⟩, ⟨"ivy", "eve", "tagged::main"⟩,
        ⟨"abe", "eve", "tagged::main"⟩, ⟨"ivy", "eve", "tagged::main"⟩]) ∧
      (posts.reader 5).all tagged "eve" mainTags posts.settings.query.queryAllLimit none = (.ok page, after') ∧
      page.neighbors = ["abe", "ivy"] := by
  have hhistory : ∃ used, tagged.History used 0 :=
    ⟨_, .upsert (.empty "edge-dataType" 0) posts (later 0) ⟨0, 0⟩ "Post" _ (by decide)⟩
  have hreached : tagged.Reached :=
    .upsert (.empty "edge-dataType") posts (later 0) ⟨0, 0⟩ "Post" (joining "eve" "mainTags")
  have honly : (mainTagging.sidesOf "Post").filter (fun other => other.owner.field == mainTags.owner.field) =
      [mainTags] := by decide
  have hindex : posts.settings.store.edgeIndexName = tagged.indexName ∧ tagged.throttledCalls = 0 := by
    rw [tagged_eq]
    decide +kernel
  have hpost : ((tagged.tableOf posts.table).liveNode? 5 "eve").map Node.typeName = some "Post" := by
    rw [tagged_eq]
    decide +kernel
  obtain ⟨n, hn, htype⟩ := Option.map_eq_some_iff.mp hpost
  obtain ⟨out, after, hget, hlookup⟩ := Engine.get_listed hindex.1 (hreached.isReadable _) hindex.2 hn (htype ▸ honly)
  obtain ⟨after', hall, -⟩ := EdgeReader.all_eq (r := posts.reader 5) "eve" mainTags hindex.1 (hreached.isReadable _)
    (Settings.ranges_of_validate posts.valid).2 EdgeReader.startOf_none
  refine ⟨hhistory, hindex.1, honly, out, _, after, after', hget, hlookup.trans (congrArg (some ∘ EdgeItem.listed) ?_),
    hall, ?_⟩
  · rw [Table.listed_eq (Table.live_of_liveNode? hn), Table.id_of_liveNode? hn, htype, tagged_eq]
    decide +kernel
  · show (tagged.tableOf posts.table).neighborsAlong 5 "eve" mainTags none = ["abe", "ivy"]
    rw [tagged_eq]
    decide +kernel

end Sample

end PropertyGraph
