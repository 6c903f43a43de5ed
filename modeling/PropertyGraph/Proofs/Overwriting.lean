import PropertyGraph.Proofs.ByteOrder
import PropertyGraph.Proofs.ChunkFates
import PropertyGraph.Proofs.PayloadObjects
import PropertyGraph.Proofs.PayloadShape
import PropertyGraph.Proofs.ReadBack
import PropertyGraph.Proofs.SettingsRules
import PropertyGraph.Proofs.SingularPath
import PropertyGraph.Proofs.Writing

/-!
# Overwriting keeps links

An upsert writes the node that it names anew and links it to the nodes below it. Every record of a payload but that
node is found under a key in which a lower id stands (`Branch.key_of_mem_recordsOf`), so that where the lower ids are
new no other row is replaced (`Table.IsOpenTo.mem_rows`). Of the edges that are written only those to the nodes right
below the first one are at that node (`Branch.mem_linksOf_iff`); along each side of its type it then has the neighbors
that it had and those that the payload puts under the field of the side (`Table.IsOpenTo.links_iff`,
`Engine.upsert_is_read_back`). Nothing of this holds where two records have one key, which ids without a separator do
not rule out (`Sample.overwritten_link_is_missing`).
-/

namespace PropertyGraph

/-! ## Links at the first node -/

/-- The ids of the nodes right below a branch under a field. -/
def Branch.idsUnder (branch : Branch) (field : String) : List String :=
  (branch.twigs.filter fun twig => twig.side.owner.field == field).flatMap
    fun twig => twig.children.map fun child => child.node.id

namespace Twig

variable {parent : String} {twigs : List Twig} {twig : Twig}

/-- The ids below a twig are among those below its node. -/
theorem idsOf_children_subset (h : twig ∈ twigs) : Branch.idsOf twig.children ⊆ idsOf twigs := by
  induction twigs with
  | nil => exact absurd h List.not_mem_nil
  | cons first rest ih =>
    obtain ⟨side, children⟩ := first
    rw [idsOf]
    rcases List.mem_cons.mp h with rfl | h
    · exact List.subset_append_left ..
    · exact List.Subset.trans (ih h) (List.subset_append_right ..)

/-- The links below a node lead from it to the nodes right below it, or are links of these. -/
theorem mem_linksBelow {l : Link} :
    l ∈ linksBelow parent twigs ↔
      ∃ twig ∈ twigs, (∃ child ∈ twig.children, l = ⟨twig.side, parent, child.node.id⟩) ∨
        l ∈ Branch.linksOf twig.children := by
  induction twigs with
  | nil => rw [linksBelow]; simp
  | cons first rest ih =>
    obtain ⟨side, children⟩ := first
    have hmap : l ∈ children.map (fun child => (⟨side, parent, child.node.id⟩ : Link)) ↔
        ∃ child ∈ children, l = ⟨side, parent, child.node.id⟩ := by
      rw [List.mem_map]
      exact exists_congr fun child => and_congr_right fun _ => eq_comm
    rw [linksBelow, List.mem_append, List.mem_append, ih, hmap]
    simp only [List.mem_cons, or_and_right, exists_or, exists_eq_left, Twig.children, Twig.side]

/-- The twigs of a node that grew are of sides of its type. -/
theorem side_mem_sidesOf {g : Grower} {typeName : String} (hgrown : AreGrown g typeName twigs) (h : twig ∈ twigs) :
    twig.side ∈ g.schema.sidesOf typeName := by
  induction twigs with
  | nil => exact absurd h List.not_mem_nil
  | cons first rest ih =>
    obtain ⟨side, children⟩ := first
    rw [AreGrown] at hgrown
    obtain ⟨⟨field, hside⟩, -, hrest⟩ := hgrown
    rcases List.mem_cons.mp h with rfl | h
    · exact (Schema.mem_sidesOf_of_side? hside).1
    · exact ih hrest h

end Twig

namespace Branch

variable {branch : Branch} {rest : List Branch}

theorem idsOf_cons (branch : Branch) (rest : List Branch) :
    idsOf (branch :: rest) = branch.node.id :: (Twig.idsOf branch.twigs ++ idsOf rest) := by
  obtain ⟨node, twigs⟩ := branch
  rw [idsOf, ids]
  rfl

/-- No link leads to the first node. -/
theorem far_ne_first (h : (idsOf (branch :: rest)).Nodup) {l : Link} (hl : l ∈ linksOf (branch :: rest)) :
    l.far ≠ branch.node.id := by
  have hlt := idxOf_lt_of_sublist h (endsOf_sublist _ l hl)
  intro hfar
  rw [hfar, idsOf_cons, List.idxOf_cons_self] at hlt
  exact Nat.not_lt_zero _ hlt

/-- The links from the first node are those to the nodes right below it. -/
theorem mem_linksOf_iff (h : (idsOf (branch :: rest)).Nodup) {l : Link} :
    l ∈ linksOf (branch :: rest) ∧ l.near = branch.node.id ↔
    ∃ twig ∈ branch.twigs, ∃ child ∈ twig.children, l = ⟨twig.side, branch.node.id, child.node.id⟩ := by
  have hsplit : l ∈ linksOf (branch :: rest) ↔ l ∈ Twig.linksBelow branch.node.id branch.twigs ∨ l ∈ linksOf rest := by
    obtain ⟨node, twigs⟩ := branch
    rw [linksOf, links, List.mem_append]
    rfl
  rw [idsOf_cons, List.nodup_cons, List.mem_append, not_or] at h
  have hapart : ∀ {branches}, branch.node.id ∉ idsOf branches → l ∈ linksOf branches →
      l.near ≠ branch.node.id := fun hnot hl heq =>
    hnot (heq ▸ (endsOf_sublist _ l hl).subset (by simp))
  rw [hsplit, Twig.mem_linksBelow]
  constructor
  · rintro ⟨⟨twig, htwig, ⟨child, hchild, rfl⟩ | hbelow⟩ | hrest, hnear⟩
    · exact ⟨twig, htwig, child, hchild, rfl⟩
    · exact absurd hnear (hapart (fun hmem => h.1.1 (Twig.idsOf_children_subset htwig hmem)) hbelow)
    · exact absurd hnear (hapart h.1.2 hrest)
  · rintro ⟨twig, htwig, child, hchild, rfl⟩
    exact ⟨Or.inl ⟨twig, htwig, Or.inl ⟨child, hchild, rfl⟩⟩, rfl⟩

/-- The ids right below the first node are lower ids. -/
theorem mem_idsOf_of_mem_idsUnder (branch : Branch) (rest : List Branch) (h : (idsOf (branch :: rest)).Nodup)
    {field id : String} (hid : id ∈ branch.idsUnder field) : id ∈ idsOf (branch :: rest) ∧ id ≠ branch.node.id := by
  obtain ⟨twig, htwig, hbelow⟩ := List.mem_flatMap.mp hid
  obtain ⟨child, hchild, rfl⟩ := List.mem_map.mp hbelow
  have hl := ((mem_linksOf_iff h).mpr ⟨twig, List.mem_of_mem_filter htwig, child, hchild, rfl⟩).1
  exact ⟨(endsOf_sublist _ _ hl).subset (by simp), far_ne_first h hl⟩

/-- A record of branches is the first node, or one of the lower ids stands in its key. -/
theorem key_of_mem_recordsOf {g : Grower} {typeName : String} (hgrown : AreGrown g typeName (branch :: rest))
    (h : (idsOf (branch :: rest)).Nodup) {r : Record} (hr : r ∈ recordsOf (branch :: rest)) :
    r.key = Key.node branch.node.id ∨ ∃ id ∈ idsOf (branch :: rest), id ≠ branch.node.id ∧
      (id.toList <:+: r.key.id.toList ∨ id.toList <:+: r.key.dataType.toList) := by
  cases r with
  | node n =>
    by_cases hfirst : n.id = branch.node.id
    · exact Or.inl (congrArg Key.node hfirst)
    · exact Or.inr ⟨n.id, id_mem_of_mem_recordsOf hgrown _ hr, hfirst, Or.inl (List.infix_refl _)⟩
  | edge e =>
    have he := mem_edgesOf.mpr hr
    rw [edgesOf_eq _ hgrown] at he
    obtain ⟨l, hl, rfl⟩ := List.mem_map.mp he
    refine Or.inr ⟨l.far, (endsOf_sublist _ l hl).subset (by simp), far_ne_first h hl, ?_⟩
    rcases l.ends_edge g.stamp with ⟨-, hneighbor⟩ | ⟨hid, -⟩
    · refine Or.inr (List.IsSuffix.isInfix ⟨(l.edge g.stamp).name.toList ++ [':', ':'], ?_⟩)
      rw [← hneighbor]
      show _ = (l.edge g.stamp).sortKey.toList
      rw [Edge.toList_sortKey, List.append_assoc]
      rfl
    · exact Or.inl (hid ▸ List.infix_refl _)

end Branch

/-- The ends of the edge along a side from one node to another. -/
theorem EdgeSide.ends_link (side : EdgeSide) (near far : String) (stamp : Stamp) :
    side.near (side.link near far stamp) = near ∧ side.far (side.link near far stamp) = far ∧
      (side.link near far stamp).name = side.edgeName ∧ (side.link near far stamp).ttl = none := by
  rw [EdgeSide.near, EdgeSide.far, link]
  cases side.principal <;> exact ⟨rfl, rfl, rfl, rfl⟩

/-- The edge of a link stands at its upper end for a side, and not at its lower one, where it has the name and the
direction of the side. -/
theorem Link.of_near {l : Link} {side : EdgeSide} {stamp : Stamp} {root : String} (hfar : l.far ≠ root)
    (hname : (l.edge stamp).name = side.edgeName) (hnear : side.near (l.edge stamp) = root) :
    l.side.edgeName = side.edgeName ∧ l.side.principal = side.principal ∧ l.near = root ∧
    side.far (l.edge stamp) = l.far := by
  rw [edge, EdgeSide.link] at hname hnear ⊢
  rw [EdgeSide.near] at hnear
  rw [EdgeSide.far]
  cases hl : l.side.principal <;> cases hs : side.principal <;>
    simp only [hl, hs, if_true, if_false, Bool.false_eq_true, true_and, and_true] at hname hnear ⊢
  · exact ⟨hname, hnear⟩
  · exact absurd hnear hfar
  · exact absurd hnear hfar
  · exact ⟨hname, hnear⟩

namespace Branch

variable {g : Grower} {typeName : String} {branch : Branch} {rest : List Branch} {side : EdgeSide}

theorem side_mem_sidesOf (hgrown : AreGrown g typeName (branch :: rest)) {twig : Twig} (h : twig ∈ branch.twigs) :
    twig.side ∈ g.schema.sidesOf typeName := by
  obtain ⟨node, twigs⟩ := branch
  exact Twig.side_mem_sidesOf hgrown.1.2 h

/-- An edge of branches that stands at the first node for a side of its type leads to a node right below it under the
field of the side. -/
theorem far_mem_idsUnder (hgrown : AreGrown g typeName (branch :: rest)) (h : (idsOf (branch :: rest)).Nodup)
    (hnames : ((g.schema.sidesOf typeName).map fun side => (side.edgeName, side.principal)).Nodup)
    (hside : side ∈ g.schema.sidesOf typeName) {e : Edge} (he : .edge e ∈ recordsOf (branch :: rest))
    (hname : e.name = side.edgeName) (hnear : side.near e = branch.node.id) :
    side.far e ∈ branch.idsUnder side.owner.field := by
  have hmem := mem_edgesOf.mpr he
  rw [edgesOf_eq _ hgrown] at hmem
  obtain ⟨l, hl, rfl⟩ := List.mem_map.mp hmem
  obtain ⟨hsameName, hsameEnd, hfirst, hend⟩ := Link.of_near (far_ne_first h hl) hname hnear
  obtain ⟨twig, htwig, child, hchild, rfl⟩ := (mem_linksOf_iff h).mp ⟨hl, hfirst⟩
  have hsame : twig.side = side :=
    List.inj_on_of_nodup_map hnames (side_mem_sidesOf hgrown htwig) hside (Prod.ext hsameName hsameEnd)
  have hfield : (twig.side.owner.field == side.owner.field) = true := beq_iff_eq.mpr (by rw [hsame])
  exact List.mem_flatMap.mpr ⟨twig, List.mem_filter.mpr ⟨htwig, hfield⟩, List.mem_map.mpr ⟨child, hchild, hend.symm⟩⟩

/-- To each node right below the first one under the field of a side of its type leads an edge of the branches along
the side. -/
theorem link_mem_recordsOf (hgrown : AreGrown g typeName (branch :: rest)) (h : (idsOf (branch :: rest)).Nodup)
    (hfields : ((g.schema.sidesOf typeName).map fun side => side.owner.field).Nodup)
    (hside : side ∈ g.schema.sidesOf typeName) {id : String} (hid : id ∈ branch.idsUnder side.owner.field) :
    .edge (side.link branch.node.id id g.stamp) ∈ recordsOf (branch :: rest) := by
  obtain ⟨twig, hmem, hbelow⟩ := List.mem_flatMap.mp hid
  obtain ⟨htwig, hfield⟩ := List.mem_filter.mp hmem
  obtain ⟨child, hchild, rfl⟩ := List.mem_map.mp hbelow
  have hsame : twig.side = side :=
    List.inj_on_of_nodup_map hfields (side_mem_sidesOf hgrown htwig) hside (eq_of_beq hfield)
  have hl := ((mem_linksOf_iff h).mpr ⟨twig, htwig, child, hchild, rfl⟩).1
  rw [← hsame, ← mem_edgesOf, edgesOf_eq _ hgrown]
  exact List.mem_map.mpr ⟨_, hl, rfl⟩

end Branch

/-! ## What is in the table after an upsert -/

/-- Whether a text stands in the key of some row, be it inside a longer text. -/
def Table.Mentions (t : Table) (text : String) : Prop :=
  ∃ row ∈ t.rows, text.toList <:+: row.key.id.toList ∨ text.toList <:+: row.key.dataType.toList

/-- Whether the records of branches can be written in a table so that of its rows only that of the first node is
replaced. -/
structure Table.IsOpenTo (t : Table) (g : Grower) (typeName : String) (first : Branch) (rest : List Branch) : Prop where
  grown : Branch.AreGrown g typeName (first :: rest)
  nodup : (Branch.idsOf (first :: rest)).Nodup
  keys : ((Branch.recordsOf (first :: rest)).map Record.key).Nodup
  /-- The lower ids are not empty, and no row mentions them. -/
  lower : ∀ id ∈ Branch.idsOf (first :: rest), id ≠ first.node.id → id ≠ "" ∧ ¬ t.Mentions id

namespace Table.IsOpenTo

variable {t t' : Table} {g : Grower} {typeName : String} {first : Branch} {rest : List Branch}

theorem isStorable (h : t.IsOpenTo g typeName first rest) : ∀ r ∈ Branch.recordsOf (first :: rest), r.IsStorable :=
  Branch.isStorable_of_areGrown h.grown

/-- No row but that of the first node has a key of the records. -/
theorem key_ne (h : t.IsOpenTo g typeName first rest) {row : Row} (hrow : row ∈ t.rows)
    (hother : row.key ≠ Key.node first.node.id) : ∀ r ∈ Branch.recordsOf (first :: rest), r.key ≠ row.key := by
  intro r hr hkey
  rcases Branch.key_of_mem_recordsOf h.grown h.nodup hr with hfirst | ⟨id, hid, hne, hwithin⟩
  · exact hother (hkey.symm.trans hfirst)
  · exact (h.lower id hid hne).2 ⟨row, hrow, hkey ▸ hwithin⟩

/-- When the records were written, every other row is as it was. -/
theorem mem_rows (h : t.IsOpenTo g typeName first rest) (hw : t.Wrote t' (Branch.recordsOf (first :: rest)))
    {row : Row} (hrow : row ∈ t.rows) (hother : row.key ≠ Key.node first.node.id) : row ∈ t'.rows :=
  (hw.mem_iff h.isStorable h.keys).mpr (Or.inr ⟨hrow, h.key_ne hrow hother⟩)

/-- When the records were written, each of them has a row. -/
theorem exists_row (h : t.IsOpenTo g typeName first rest) (hw : t.Wrote t' (Branch.recordsOf (first :: rest)))
    {r : Record} (hr : r ∈ Branch.recordsOf (first :: rest)) :
    ∃ row ∈ t'.rows, row.key = r.key ∧ Record.ofAttributes row.attributes = .ok r := by
  obtain ⟨row, -, -, hattributes, -⟩ := Record.exists_row? (h.isStorable r hr)
  refine ⟨row, (hw.mem_iff h.isStorable h.keys).mpr (Or.inl ⟨r, hr, hattributes⟩),
    Row.key_of_attributes hattributes (h.isStorable r hr), ?_⟩
  rw [hattributes]
  exact Record.ofAttributes_toAttributes (h.isStorable r hr)

/-- When the records were written, the first node is found under its id. -/
theorem liveNode?_eq (h : t.IsOpenTo g typeName first rest) (hw : t.Wrote t' (Branch.recordsOf (first :: rest)))
    (now : Int64) : t'.liveNode? now first.node.id = some first.node := by
  obtain ⟨hnode, hmem, -⟩ := Branch.node_isGrown h.grown
  obtain ⟨row, hrow, hkey, hread⟩ := h.exists_row hw hmem
  exact liveNode?_of_mem hrow hkey hread (hnode.isOver_ttl now)

/-- When the records were written, the first node is linked along a side of its type to what it was linked to and to
the nodes right below it under the field of the side. -/
theorem links_iff (h : t.IsOpenTo g typeName first rest) (hw : t.Wrote t' (Branch.recordsOf (first :: rest)))
    (hfields : ((g.schema.sidesOf typeName).map fun side => side.owner.field).Nodup)
    (hnames : ((g.schema.sidesOf typeName).map fun side => (side.edgeName, side.principal)).Nodup)
    {side : EdgeSide} (hside : side ∈ g.schema.sidesOf typeName) (now : Int64) (far : String) :
    t'.Links now side first.node.id far ↔ t.Links now side first.node.id far ∨
    far ∈ first.idsUnder side.owner.field := by
  constructor
  · rintro ⟨row, hrow, e, hread, hlive, hname, hnear, rfl⟩
    rcases hw.rows row hrow with ⟨r, hmem, hattributes⟩ | ⟨hold, -⟩
    · rw [hattributes, Record.ofAttributes_toAttributes (h.isStorable r hmem), Except.ok.injEq] at hread
      subst hread
      exact Or.inr (Branch.far_mem_idsUnder h.grown h.nodup hnames hside hmem hname hnear)
    · exact Or.inl ⟨row, hold, e, hread, hlive, hname, hnear, rfl⟩
  · rintro (⟨row, hrow, e, hread, hlive, hname, hnear, hfar⟩ | hunder)
    · have hother : row.key ≠ Key.node first.node.id := fun hkey =>
        e.sortKey_ne_nodeMarker (congrArg Key.dataType ((Row.key_of_edge hread).symm.trans hkey))
      exact ⟨row, h.mem_rows hw hrow hother, e, hread, hlive, hname, hnear, hfar⟩
    · obtain ⟨row, hrow, -, hread⟩ := h.exists_row hw (Branch.link_mem_recordsOf h.grown h.nodup hfields hside hunder)
      obtain ⟨hnear, hfar, hname, httl⟩ := side.ends_link first.node.id far g.stamp
      exact ⟨row, hrow, _, hread, by rw [httl]; rfl, hname, hnear, hfar⟩

end Table.IsOpenTo

/-- Of the ids of a tree all but the first one are drawn. -/
theorem IdSource.Gives.mem_drawnSince {before after : IdSource} {given : Option String} {ids : List String}
    (h : before.Gives given ids after) {root id : String} (hroot : root ∈ ids.head?) (hid : id ∈ ids)
    (hne : id ≠ root) : id ∈ before.drawnSince after := by
  rcases List.mem_append.mp (h.subset hid) with hgiven | hdrawn
  · exact absurd (h.eq_of_head? (Option.mem_toList.mp hgiven) hroot).symm hne
  · exact hdrawn

theorem AreSeparable.subset {ids some : List String} (h : AreSeparable ids) (hsubset : some ⊆ ids) :
    AreSeparable some :=
  ⟨fun id hid => h.1 id (hsubset hid), fun a ha b hb => h.2 a (hsubset ha) b (hsubset hb)⟩

/-- A table is open to branches whose lower ids are drawn, where these are distinct, not empty, not mentioned, and can
be told from names. -/
theorem Table.isOpenTo_of_gives {t : Table} {g : Grower} {typeName : String} {first : Branch} {rest : List Branch}
    {given : Option String} {ids ids' : IdSource} (hgrown : Branch.AreGrown g typeName (first :: rest))
    (hgives : ids.Gives given (Branch.idsOf (first :: rest)) ids')
    (hdistinct : (given.toList ++ ids.drawnSince ids').Nodup)
    (hnew : ∀ id ∈ ids.drawnSince ids', id ≠ "" ∧ ¬ t.Mentions id)
    (hseparable : AreSeparable (first.node.id :: ids.drawnSince ids')) : t.IsOpenTo g typeName first rest := by
  have hhead : first.node.id ∈ (Branch.idsOf (first :: rest)).head? := by
    rw [Branch.idsOf_cons]
    rfl
  have hdrawn : ∀ id ∈ Branch.idsOf (first :: rest), id ≠ first.node.id → id ∈ ids.drawnSince ids' := fun id hid hne =>
    hgives.mem_drawnSince hhead hid hne
  have hapart : AreSeparable (Branch.idsOf (first :: rest)) := hseparable.subset fun id hid => by
    by_cases hfirst : id = first.node.id
    · exact hfirst ▸ List.mem_cons_self ..
    · exact List.mem_cons_of_mem _ (hdrawn id hid hfirst)
  have hnodup := hgives.nodup hdistinct
  exact ⟨hgrown, hnodup, Branch.nodup_keys hgrown hnodup hapart, fun id hid hne => hnew id (hdrawn id hid hne)⟩

/-! ## Upserts -/

/-- Where a node is linked to what it was linked to and to some nodes more, it has these besides its neighbors from
before. -/
theorem EdgeReader.all_union {r : EdgeReader} {s s' : Store} {root : String} {side : EdgeSide} {limit : Nat}
    {more : List String} (hindex : r.indexName = s.indexName) (hsame : s'.indexName = s.indexName)
    (hr : (s.tableOf r.table).IsReadable) (hr' : (s'.tableOf r.table).IsReadable) (hl : 0 < limit)
    (hnamed : ∀ id ∈ more, id ≠ "")
    (hlinks : ∀ id, (s'.tableOf r.table).Links r.now side root id ↔
      (s.tableOf r.table).Links r.now side root id ∨ id ∈ more) :
    ∃ before after t t', r.all s root side limit none = (.ok before, t) ∧
      r.all s' root side limit none = (.ok after, t') ∧
      after.neighbors.Pairwise (fun a b => ByteOrder.bytes a < ByteOrder.bytes b) ∧
      ∀ id, id ∈ after.neighbors ↔ id ∈ before.neighbors ∨ id ∈ more := by
  obtain ⟨t, hbefore, -⟩ := all_eq root side hindex hr hl startOf_none
  obtain ⟨t', hafter, -⟩ := all_eq root side (hindex.trans hsame.symm) hr' hl startOf_none
  refine ⟨_, _, t, t', hbefore, hafter, (Table.neighborsAlong_ascending ..).imp ByteOrder.bytes_lt, fun id => ?_⟩
  dsimp only
  rw [Table.mem_neighborsAlong_iff, Table.mem_neighborsAlong_iff]
  exact (and_congr_right' (hlinks id)).trans (and_or_left.trans (or_congr_right (and_iff_right_of_imp (hnamed id))))

namespace Engine

/-- To look up the id of a live node in a readable table finds the node. -/
theorem look_of_liveNode? {e : Engine} {s : Store} {now : Int64} {id : String} {n : Node}
    (hr : (s.tableOf e.table).IsReadable) (hfault : s.throttledCalls = 0)
    (h : (s.tableOf e.table).liveNode? now id = some n) : e.look s now [id] = (⟨[n], []⟩, s) := by
  obtain ⟨hsize, hmost⟩ := (Settings.ranges_of_validate e.valid).1
  rw [look, hydrate_eq now [id] hr hfault hsize hmost, List.filterMap_cons, h]
  rfl

/-- An upsert reads back what it wrote and keeps the links that there were. In a readable table of a store without
faults, for a payload with at least one node, of a type whose sides have distinct fields and are distinct in name and
direction, where the ids that are drawn are not empty, distinct, other than the one that is given and mentioned by no
row, and where the id of the first node and they can be told from the names before them in data types:

1. the upsert reports no error, and no row that the store did not take;
2. every row stays as it was but that of the first node, and so does every other table;
3. the first node, when it is looked up, has the type, the stamp of the upsert, no time to live, and the fields of the
   first object of the payload that lead over no relationship; and
4. along each side of the type, whatever the size of the pages and whenever it is read, the node has the neighbors that
   it had before and the nodes that the first object has under the field of the side, in the order of their bytes. -/
theorem upsert_is_read_back {e : Engine} {s : Store} {ids ids' : IdSource} {now : Instant} {typeName root : String}
    {r : UpsertRequest} {expansion : Expansion} (hs : s.IsFaultless)
    (hindex : e.settings.store.edgeIndexName = s.indexName) (hr : (s.tableOf e.table).IsReadable)
    (hfields : ((e.schema.sidesOf typeName).map fun side => side.owner.field).Nodup)
    (hnames : ((e.schema.sidesOf typeName).map fun side => (side.edgeName, side.principal)).Nodup)
    (hexpand : (e.grower now).expand typeName r.create.data r.create.connections (r.target.bind Target.id) ids =
      (.ok expansion, ids'))
    (hroot : root ∈ expansion.roots.head?)
    (hdistinct : ((r.target.bind Target.id).toList ++ ids.drawnSince ids').Nodup)
    (hnew : ∀ id ∈ ids.drawnSince ids', id ≠ "" ∧ ¬ (s.tableOf e.table).Mentions id)
    (hseparable : AreSeparable (root :: ids.drawnSince ids')) :
    ∃ object others first rest s', objectsOf r.create.data = object :: others ∧
      (e.grower now).level typeName r.create.data r.create.connections (r.target.bind Target.id) ids =
        (.ok (first :: rest), ids') ∧
      first.IsOf (e.grower now) typeName object ∧ first.node.id = root ∧
      e.upsert s ids now typeName r = (.ok ⟨reduce e.schema now.seconds root expansion.records, []⟩, s', ids') ∧
      (∀ row ∈ (s.tableOf e.table).rows, row.key ≠ Key.node root → row ∈ (s'.tableOf e.table).rows) ∧
      (∀ other, other ≠ e.table → s'.tableOf other = s.tableOf other) ∧
      (∀ later, e.look s' later [root] =
        (⟨[⟨root, typeName, (e.grower now).stamp, none, ownFields e.schema typeName object.entries⟩], []⟩, s')) ∧
      ∀ side ∈ e.schema.sidesOf typeName, ∀ later limit, 0 < limit → ∃ before after t t',
        (e.reader later).all s root side limit none = (.ok before, t) ∧
          (e.reader later).all s' root side limit none = (.ok after, t') ∧
        after.neighbors.Pairwise (fun a b => ByteOrder.bytes a < ByteOrder.bytes b) ∧
        ∀ id, id ∈ after.neighbors ↔ id ∈ before.neighbors ∨ id ∈ first.idsUnder side.owner.field := by
  obtain ⟨branches, hlevel, rfl⟩ := Grower.level_of_expand hexpand
  obtain ⟨hgrown, hof, hgives⟩ := Grower.level_eq_tree hlevel
  cases branches with
  | nil => exact absurd hroot (by simp [Expansion.ofBranches])
  | cons first rest =>
    obtain rfl : first.node.id = root := Option.some.inj hroot
    have hopen := Table.isOpenTo_of_gives hgrown hgives hdistinct hnew hseparable
    obtain ⟨object, others, hobjects, hfirst⟩ := Branch.exists_object hof
    obtain ⟨s', hupsert, hwrote⟩ := upsert_eq hs hlevel
    have hreadable := hwrote.wrote.isReadable hr hopen.isStorable
    refine ⟨object, others, first, rest, s', hobjects, hlevel, hfirst, rfl, hupsert,
      fun row hrow hother => hopen.mem_rows hwrote.wrote hrow hother,
      hwrote.others, fun later => ?_, fun side hside later limit hl => ?_⟩
    · rw [look_of_liveNode? hreadable hwrote.faultless.throttled (hopen.liveNode?_eq hwrote.wrote later),
        hfirst.node_eq]
      rfl
    · refine EdgeReader.all_union (r := e.reader later) hindex hwrote.index hr hreadable hl (fun id hunder => ?_)
        (hopen.links_iff hwrote.wrote hfields hnames hside later)
      obtain ⟨hid, hne⟩ := first.mem_idsOf_of_mem_idsUnder rest hopen.nodup hunder
      exact (hopen.lower id hid hne).1

end Engine

namespace Sample

/-- The new user follows two others; overwritten with two more whom to follow, they follow all four. -/
theorem eve_follows_two_more :
    created.IsFaultless ∧ (∀ id ∈ (later 0).drawnSince (later 2),
      id ≠ "" ∧ ¬ (created.tableOf users.table).Mentions id) ∧
      ∃ node s' before after t t',
        users.upsert created (later 0) ⟨7, 0⟩ "User" (joining "eve" "follows") = (.ok ⟨node, []⟩, s', later 2) ∧
        users.look s' 9 ["eve"] = (⟨[⟨"eve", "User", (users.grower ⟨7, 0⟩).stamp, none, []⟩], []⟩, s') ∧
        (users.reader 9).all created "eve" follows 1 none = (.ok before, t) ∧ before.neighbors = ["gus", "hal"] ∧
        (users.reader 9).all s' "eve" follows 1 none = (.ok after, t') ∧
        after.neighbors.Pairwise (fun a b => ByteOrder.bytes a < ByteOrder.bytes b) ∧
        ∀ id, id ∈ after.neighbors ↔ id ∈ ["gus", "hal"] ∨ id ∈ ["abe", "ivy"] := by
  have hr := created_reached.isReadable users.table
  have hindex : users.settings.store.edgeIndexName = created.indexName := by
    rw [created_eq]
    decide +kernel
  have hnew : ∀ id ∈ (later 0).drawnSince (later 2), id ≠ "" ∧ ¬ (created.tableOf users.table).Mentions id := by
    rw [created_eq]
    unfold Table.Mentions
    decide +kernel
  have hseparable : AreSeparable ("eve" :: (later 0).drawnSince (later 2)) :=
    areSeparable_of_forall (by unfold isSeparable; decide)
  have hlevel : (users.grower ⟨7, 0⟩).level "User" (joining "eve" "follows").create.data
      (joining "eve" "follows").create.connections (some "eve") (later 0) = _ :=
    @level_joining users.schema users.paired follows "eve" (by decide) (by decide) ⟨7, 0⟩
  have hexpand : (users.grower ⟨7, 0⟩).expand "User" (joining "eve" "follows").create.data
      (joining "eve" "follows").create.connections (some "eve") (later 0) = _ :=
    @expand_joining users.schema users.paired follows "eve" (by decide) (by decide) ⟨7, 0⟩
  have hbefore : (created.tableOf users.table).neighborsAlong 9 "eve" follows none = ["gus", "hal"] := by
    rw [created_eq]
    decide +kernel
  obtain ⟨object, others, first, rest, s', hobjects, hgrows, -, -, hupsert, -, -, hlook, hread⟩ :=
    Engine.upsert_is_read_back created_isFaultless hindex hr (by decide) (by decide) hexpand rfl
      (by decide) hnew hseparable
  obtain ⟨rfl, rfl⟩ := List.cons_eq_cons.mp (Except.ok.inj (Prod.mk.inj (hgrows.symm.trans hlevel)).1)
  obtain ⟨rfl, rfl⟩ := List.cons_eq_cons.mp hobjects
  obtain ⟨before, after, t, t', hall, hall', hascending, hunion⟩ := hread follows (by decide) 9 1 Nat.one_pos
  obtain ⟨s'', hrows, -⟩ := EdgeReader.all_eq (r := users.reader 9) "eve" follows hindex hr Nat.one_pos
    EdgeReader.startOf_none
  have hneighbors : before.neighbors = ["gus", "hal"] := by
    rw [Except.ok.inj (Prod.mk.inj (hall.symm.trans hrows)).1]
    exact hbefore
  exact ⟨created_isFaultless, hnew, _, s', before, after, t, t', hupsert, hlook 9, hall, hneighbors, hall', hascending,
    hneighbors ▸ hunion⟩

/-- What keeps pages, tags and topics. -/
def tagger : Engine := graphOf tagging.schema rfl

/-- Asks for a page of an id that begins with a colon, with a tag that has a topic. -/
def tagPage : UpsertRequest where
  target := some (.ofId ":gus")
  create := { data := taggedPage.get? "data" }

theorem level_tagPage : (tagger.grower ⟨0, 0⟩).level "Page" tagPage.create.data tagPage.create.connections (some ":gus")
    (fresh 1) =
    (.ok [taggedTree (tagger.grower ⟨0, 0⟩).stamp], fresh 3) := level_taggedPage (tagger.grower ⟨0, 0⟩).stamp

/-- In an empty store all of its rows are taken, and none of them is an edge at the page. -/
theorem upsert_tagPage :
    ∃ node s', tagger.upsert (Store.empty "edge-dataType") (fresh 1) ⟨0, 0⟩ "Page" tagPage =
      (.ok ⟨node, []⟩, s', fresh 3) ∧
      s'.indexName = "edge-dataType" ∧ (s'.tableOf tagger.table).neighborsAlong 0 ":gus" pageTags none = [] := by
  have hchunk : chunks tagger.settings.write.batchSize (Branch.recordsOf [taggedTree (tagger.grower ⟨0, 0⟩).stamp]) =
      [Branch.recordsOf [taggedTree (tagger.grower ⟨0, 0⟩).stamp]] :=
        chunks_of_le (List.cons_ne_nil _ _) (Nat.le_of_ble_eq_true rfl)
  obtain ⟨s', hupsert, hwrote⟩ := Engine.upsert_eq (s := .empty "edge-dataType") ⟨rfl, rfl, rfl⟩ level_tagPage
  have hstored : s' = (writeChunk (Store.empty "edge-dataType") "graph" tagger.settings.write.retryPolicy.retries
      ((Branch.recordsOf [taggedTree (tagger.grower ⟨0, 0⟩).stamp]).map Record.toAttributes)).2 := by
    rw [Engine.upsert_of_level level_tagPage] at hupsert
    refine (congrArg (fun answer => answer.2.1) hupsert).symm.trans ?_
    rw [writeRecords, hchunk]
    rfl
  refine ⟨_, s', hupsert, hwrote.index, ?_⟩
  rw [hstored]
  decide +kernel

/-- Where the id of the page begins with a colon, the edge between the page and the tag is overwritten by the edge
between the tag and the topic, which has its key: in a valid schema whose sides are distinct, in an empty store without
faults, with ids that are distinct, not empty and without a separator, the upsert reports no error and no row that was
not taken, and yet the page has no neighbors along its tags. -/
theorem overwritten_link_is_missing :
    (tagging.schema.sides.map fun side => side.owner).Nodup ∧
    (tagging.schema.sides.map fun side => (side.owner.typeName, side.edgeName, side.principal)).Nodup ∧
    (Store.empty "edge-dataType").IsFaultless ∧ tagger.settings.store.edgeIndexName = "edge-dataType" ∧
    (":gus" :: (fresh 1).drawnSince (fresh 3)).Nodup ∧
    (∀ id ∈ ":gus" :: (fresh 1).drawnSince (fresh 3),
      id ≠ "" ∧ ¬ sortSeparator.toList <:+: id.toList ∧
      ¬ ((Store.empty "edge-dataType").tableOf tagger.table).Mentions id) ∧
    ∃ first node s' page t,
      (tagger.grower ⟨0, 0⟩).level "Page" tagPage.create.data tagPage.create.connections (some ":gus") (fresh 1) =
        (.ok [first], fresh 3) ∧
      first.idsUnder pageTags.owner.field = ["hal"] ∧
      tagger.upsert (Store.empty "edge-dataType") (fresh 1) ⟨0, 0⟩ "Page" tagPage = (.ok ⟨node, []⟩, s', fresh 3) ∧
      (tagger.reader 0).all s' ":gus" pageTags 1 none = (.ok page, t) ∧ page.neighbors = [] := by
  obtain ⟨node, s', hupsert, hindex, hnone⟩ := upsert_tagPage
  have hreached : s'.Reached := by
    have h := Store.Reached.upsert (.empty "edge-dataType") tagger (fresh 1) ⟨0, 0⟩ "Page" tagPage
    rwa [hupsert] at h
  obtain ⟨t, hall, -⟩ := EdgeReader.all_eq (r := tagger.reader 0) ":gus" pageTags hindex.symm (hreached.isReadable _)
    Nat.one_pos EdgeReader.startOf_none
  refine ⟨by decide, by decide, ⟨rfl, rfl, rfl⟩, rfl, by decide, ?_, taggedTree _, node, s', _, t, level_tagPage, rfl,
    hupsert, hall, hnone⟩
  unfold Table.Mentions
  decide

end Sample

end PropertyGraph
