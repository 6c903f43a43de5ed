import PropertyGraph.Proofs.PayloadTree
import PropertyGraph.Proofs.Reachable

/-!
# The shape of an expansion

An expansion is the tree of its payload and nothing else (`Expansion.IsTreeOf`): a node for each object, with the
fields of the object, and an edge for each object below another one, whatever the schema and however deep the payload.
Only the ids that are given or drawn have to be distinct (`Grower.expandPayload_isTreeOf`). That no two records have
one key asks for more than ids without a separator: an id that is another one with a colon in front lets the end of one
name of an edge pass for the beginning of the separator (`Sample.colon_first_root_shares_a_key`).
-/

namespace PropertyGraph

/-- Whether an edge is one between two ids, in either direction. -/
def Edge.Joins (e : Edge) (a b : String) : Prop := e.id = a ∧ e.neighbor = b ∨ e.id = b ∧ e.neighbor = a

/-- Whether an expansion is the tree of what `data` holds at a place for nodes of a type, where an id may be given for
the first node and the others are drawn. -/
structure Expansion.IsTreeOf (g : Grower) (typeName : String) (data : Option Json) (first : Option String)
    (before after : IdSource) (branches : List Branch) (expansion : Expansion) : Prop where
  /-- There is a branch for each object, with its fields, and below it a branch for each object below it. -/
  objects : Branch.AreOf g typeName (objectsOf data) branches
  /-- The records are the nodes of the branches and the edges of their links, and nothing else. -/
  records : expansion.records.Perm
    ((Branch.nodesIn branches).map Record.node ++ (Branch.linksOf branches).map fun l => Record.edge (l.edge g.stamp))
  /-- No edge leads past a node, from one right above it to one right below it. -/
  apart : ∀ l ∈ Branch.linksOf branches, ∀ m ∈ Branch.linksOf branches, m.near = l.far →
    ∀ e ∈ edgesOf expansion.records, ¬ e.Joins l.near m.far
  /-- A node is written after those below it. -/
  lower_first : ∀ l ∈ Branch.linksOf branches, [l.far, l.near].Sublist ((nodesOf expansion.records).map Node.id)
  /-- Where the ids can be told from the names before them, all keys are distinct. -/
  keys : AreSeparable (Branch.idsOf branches) → (expansion.records.map Record.key).Nodup
  roots : expansion.roots = branches.map fun branch => branch.node.id
  /-- The id that is given is that of the first root. -/
  root_first : ∀ id ∈ first, ∀ root ∈ expansion.roots.head?, root = id
  /-- The ids, read from the top and from left to right, are the one that is given and those that are drawn. -/
  ids : before.Gives first (Branch.idsOf branches) after
  /-- The id of a node is drawn before those below it. -/
  upper_first : ∀ l ∈ Branch.linksOf branches, [l.near, l.far].Sublist (Branch.idsOf branches)
  count : expansion.nodeCount = expansion.edgeCount + expansion.roots.length

namespace Branch

variable {branches : List Branch}

/-- Where ids are distinct, no link of branches leads past a node, down or up: the lower end has one link only, whose
upper end is the node between. -/
theorem not_linked_past (h : (idsOf branches).Nodup) {k l m : Link} (hk : k ∈ linksOf branches)
    (hl : l ∈ linksOf branches) (hm : m ∈ linksOf branches) (hlm : m.near = l.far) :
    ¬ (k.near = l.near ∧ k.far = m.far) ∧ ¬ (k.near = m.far ∧ k.far = l.near) := by
  have hplace : ∀ l ∈ linksOf branches, (idsOf branches).idxOf l.near < (idsOf branches).idxOf l.far :=
    fun l hl => idxOf_lt_of_sublist h (endsOf_sublist branches l hl)
  have hlplace := hplace l hl
  constructor
  · rintro ⟨hnear, hfar⟩
    obtain rfl : k = m := List.inj_on_of_nodup_map (nodup_far h) hk hm hfar
    rw [← hnear, hlm] at hlplace
    exact Nat.lt_irrefl _ hlplace
  · rintro ⟨hnear, hfar⟩
    have hkplace := hplace k hk
    have hmplace := hplace m hm
    rw [hnear, hfar] at hkplace
    rw [hlm] at hmplace
    omega

/-- Where ids are distinct, no edge of well made branches leads past a node. -/
theorem not_joins_past {g : Grower} {typeName : String} (hgrown : AreGrown g typeName branches)
    (h : (idsOf branches).Nodup) {l m : Link} (hl : l ∈ linksOf branches) (hm : m ∈ linksOf branches)
    (hlm : m.near = l.far) {e : Edge} (he : e ∈ edgesOf (recordsOf branches)) : ¬ e.Joins l.near m.far := by
  rw [edgesOf_eq branches hgrown] at he
  obtain ⟨k, hk, rfl⟩ := List.mem_map.mp he
  obtain ⟨hdown, hup⟩ := not_linked_past h hk hl hm hlm
  rw [Edge.Joins]
  rcases k.ends_edge g.stamp with ⟨hid, hneighbor⟩ | ⟨hid, hneighbor⟩
  · rw [hid, hneighbor]
    rintro (hends | hends)
    · exact hdown hends
    · exact hup hends
  · rw [hid, hneighbor]
    rintro (hends | hends)
    · exact hup hends.symm
    · exact hdown hends.symm

theorem length_idsOf (branches : List Branch) :
    (idsOf branches).length = (linksOf branches).length + branches.length := by
  rw [(idsOf_perm branches).length_eq, List.length_append, List.length_map, List.length_map, Nat.add_comm]

theorem head?_idsOf (branches : List Branch) :
    (idsOf branches).head? = (branches.map fun branch => branch.node.id).head? := by
  cases branches with
  | nil => rw [idsOf, List.map_nil]
  | cons branch rest =>
    obtain ⟨node, twigs⟩ := branch
    rw [idsOf, ids]
    rfl

end Branch

/-- Well made branches with distinct ids, given and drawn, which are those of the objects of `data`, make an expansion
that is their tree. -/
theorem Expansion.isTreeOf_ofBranches {g : Grower} {typeName : String} {data : Option Json} {first : Option String}
    {before after : IdSource} {branches : List Branch} (hgrown : Branch.AreGrown g typeName branches)
    (hof : Branch.AreOf g typeName (objectsOf data) branches)
    (hgives : before.Gives first (Branch.idsOf branches) after) (h : (Branch.idsOf branches).Nodup) :
    (Expansion.ofBranches branches).IsTreeOf g typeName data first before after branches where
  objects := hof
  records := by
    have hedges : (edgesOf (Branch.recordsOf branches)).map Record.edge =
        (Branch.linksOf branches).map fun l => Record.edge (l.edge g.stamp) := by
      rw [Branch.edgesOf_eq branches hgrown, List.map_map]
      rfl
    have hparts := perm_nodesOf_edgesOf (Branch.recordsOf branches)
    rw [hedges] at hparts
    exact hparts.trans (((Branch.nodesIn_perm branches).map Record.node).append_right _)
  apart _ hl _ hm hlm _ he := Branch.not_joins_past hgrown h hl hm hlm he
  lower_first := Branch.rowsOf_sublist branches
  keys := Branch.nodup_keys hgrown h
  roots := rfl
  root_first _ hid _ hroot := hgives.eq_of_head? hid (Branch.head?_idsOf branches ▸ hroot)
  ids := hgives
  upper_first := Branch.endsOf_sublist branches
  count := by
    have hnodes : (nodesOf (Branch.recordsOf branches)).length = (Branch.idsOf branches).length := by
      rw [← (Branch.nodesOf_perm branches).length_eq, List.length_map]
    have hedges : (edgesOf (Branch.recordsOf branches)).length = (Branch.linksOf branches).length := by
      rw [Branch.edgesOf_eq branches hgrown, List.length_map]
    rw [nodeCount, edgeCount, ofBranches, List.length_map]
    exact hnodes.trans (hedges ▸ Branch.length_idsOf branches)

/-- The expansion of a payload is its tree, where the id that is given for the first node and the ids that are drawn
are distinct. -/
theorem Grower.expandPayload_isTreeOf {g : Grower} {typeName : String} {payload : Json} {first : Option String}
    {ids ids' : IdSource} {expansion : Expansion}
    (h : g.expandPayload typeName payload first ids = (.ok expansion, ids'))
    (hnodup : (first.toList ++ ids.drawnSince ids').Nodup) :
    ∃ branches, expansion.IsTreeOf g typeName (payload.get? "data") first ids ids' branches := by
  have htree : ∃ branches, expansion = .ofBranches branches ∧ Branch.AreGrown g typeName branches ∧
      Branch.AreOf g typeName (objectsOf (payload.get? "data")) branches ∧
      ids.Gives first (Branch.idsOf branches) ids' := by
    cases payload with
    | null =>
      rw [expandPayload] at h
      obtain ⟨hexpansion, rfl⟩ := Prod.mk.inj h
      refine ⟨[], ?_, trivial, trivial, [], .refl _, Or.inl ⟨?_, rfl⟩⟩
      · rw [← Except.ok.inj hexpansion, Expansion.ofBranches, Branch.recordsOf]
        rfl
      · rw [Branch.idsOf]
    | object members => exact expand_eq_tree h
    | _ => simp [expandPayload] at h
  obtain ⟨branches, rfl, hgrown, hof, hgives⟩ := htree
  exact ⟨branches, Expansion.isTreeOf_ofBranches hgrown hof hgives (hgives.nodup hnodup)⟩

namespace Sample

/-- A user with two others below it is the tree of the request for it, and no two of its records have one key. -/
theorem newcomer_isTreeOf : ∃ expansion ids' branches,
    (users.grower ⟨0, 0⟩).expandPayload "User" (.object [("data", newcomerData)]) none (fresh 0) =
      (.ok expansion, ids') ∧
      expansion.IsTreeOf (users.grower ⟨0, 0⟩) "User" (some newcomerData) none (fresh 0) ids' branches ∧
      Branch.idsOf branches = ["eve", "hal", "gus"] ∧ (expansion.records.map Record.key).Nodup := by
  have hexpand : (users.grower ⟨0, 0⟩).expandPayload "User" (.object [("data", newcomerData)]) none (fresh 0) = _ :=
    expand_newcomer ⟨0, 0⟩
  have hdrawn : (fresh 0).drawnSince (fresh 3) = ["eve", "hal", "gus"] := rfl
  obtain ⟨branches, htree⟩ := Grower.expandPayload_isTreeOf hexpand (by rw [hdrawn]; decide)
  have hids : Branch.idsOf branches = ["eve", "hal", "gus"] := by
    rw [← hdrawn, (IdSource.gives_none_iff.mp htree.ids).drawnSince_eq]
  refine ⟨_, _, branches, hexpand, htree, hids, htree.keys (areSeparable_of_forall ?_)⟩
  rw [hids]
  unfold isSeparable
  decide

/-- The tags of a page. -/
def pageTags : EdgeSide := ⟨⟨"Page", "tags"⟩, "Tag", "tagged", false, .many, false, ⟨"Tag", "pages"⟩⟩

/-- The pages of a tag, which hold the edges to them. -/
def tagPages : EdgeSide := ⟨⟨"Tag", "pages"⟩, "Page", "tagged", false, .many, true, ⟨"Page", "tags"⟩⟩

/-- The topics of a tag, by edges whose name has a colon more. -/
def tagTopics : EdgeSide := ⟨⟨"Tag", "topics"⟩, "Topic", "tagged:", false, .many, true, ⟨"Topic", "tags"⟩⟩

/-- The tags of a topic. -/
def topicTags : EdgeSide := ⟨⟨"Topic", "tags"⟩, "Tag", "tagged:", false, .many, false, ⟨"Tag", "topics"⟩⟩

/-- What grows pages, tags and topics. -/
def tagging : Grower := ⟨Schema.ofSides [pageTags, tagPages, tagTopics, topicTags], default⟩

/-- Asks for a page with a tag that has a topic. -/
def taggedPage : Json :=
  .object [("data", .object [("tags", .object [("data", .object [("topics", .object [("data", .object [])])])])])]

/-- The tree to which that request grows below a page whose id begins with a colon, under a stamp. -/
def taggedTree (stamp : Stamp) : Branch :=
  .mk ⟨":gus", "Page", stamp, none, []⟩
    [.mk pageTags [.mk ⟨"hal", "Tag", stamp, none, []⟩ [.mk tagTopics [.mk ⟨"gus", "Topic", stamp, none, []⟩ []]]]]

/-- The tree to which it grows under the stamp of what grows pages here. -/
def taggedBranch : Branch := taggedTree tagging.stamp

/-- That request grows to that tree, and draws two ids. -/
theorem level_taggedPage (stamp : Stamp) :
    ({ tagging with stamp } : Grower).level "Page" (taggedPage.get? "data") (taggedPage.get? "connections")
      (some ":gus") (fresh 1) =
      (.ok [taggedTree stamp], fresh 3) := by
  let g : Grower := { tagging with stamp }
  have hnone (typeName : String) (ids : IdSource) : g.content typeName [] ids = (.ok ⟨[], []⟩, ids) := by
    rw [Grower.content]
  have hend (typeName : String) (ids : IdSource) : g.branches typeName [] none ids = (.ok [], ids) := by
    rw [Grower.branches]
  have hdraw (k : Nat) : (fresh k).drawUnless none = ((fresh k).sequence k, fresh (k + 1)) := rfl
  have htopic : g.level "Topic" (some (.object [])) none none (fresh 2) = _ :=
    (Grower.level_of_readData rfl rfl none _).trans (Grower.branches_cons (hdraw 2) (hnone _ _) (hend _ _))
  have htag : g.level "Tag" (some (.object [("topics", .object [("data", .object [])])])) none none (fresh 1) = _ :=
    (Grower.level_of_readData rfl rfl none _).trans
      (Grower.branches_cons (hdraw 1) (Grower.content_twig (by decide) rfl rfl htopic (hnone _ _)) (hend _ _))
  have hpage : g.level "Page" (taggedPage.get? "data") (taggedPage.get? "connections") (some ":gus") (fresh 1) = _ :=
    (Grower.level_of_readData rfl rfl (some ":gus") _).trans
      (Grower.branches_cons rfl (Grower.content_twig (by decide) rfl rfl htag (hnone _ _)) (hend _ _))
  exact hpage

/-- The expansion of that request is that of the tree. -/
theorem expand_taggedPage :
    tagging.expandPayload "Page" taggedPage (some ":gus") (fresh 1) = (.ok (.ofBranches [taggedBranch]), fresh 3) := by
  have hexpand : tagging.expandPayload "Page" taggedPage (some ":gus") (fresh 1) =
    tagging.expand "Page" (taggedPage.get? "data") (taggedPage.get? "connections") (some ":gus") (fresh 1) := rfl
  have hlevel : tagging.level "Page" (taggedPage.get? "data") (taggedPage.get? "connections") (some ":gus") (fresh 1) =
      _ :=
    level_taggedPage tagging.stamp
  rw [hexpand, Grower.expand, hlevel]
  rfl

/-- Where the id of the page is that of the topic with a colon in front, the edge between the page and the tag has the
key of the edge between the tag and the topic: the schema is valid, the ids are distinct and no id has a separator in
it, yet the keys of the records are not distinct. -/
theorem colon_first_root_shares_a_key : tagging.schema.validate = .ok () ∧
    ∃ expansion ids', tagging.expandPayload "Page" taggedPage (some ":gus") (fresh 1) = (.ok expansion, ids') ∧
      (":gus" :: (fresh 1).drawnSince ids').Nodup ∧
      (∀ id ∈ ":gus" :: (fresh 1).drawnSince ids', ¬ sortSeparator.toList <:+: id.toList) ∧
      ¬ (expansion.records.map Record.key).Nodup :=
  ⟨rfl, .ofBranches [taggedBranch], fresh 3, expand_taggedPage, by decide, by decide, by decide⟩

end Sample

end PropertyGraph
