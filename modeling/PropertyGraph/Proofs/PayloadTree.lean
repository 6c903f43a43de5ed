import Mathlib.Data.List.Nodup
import PropertyGraph.Proofs.Growth

/-!
# The records of a payload

The records of a well made tree are its nodes and one edge for each of its links, from a node to one right below it
(`Branch.nodesIn_perm`, `Branch.edgesOf_eq`). Every id but the topmost ones is at the lower end of exactly one link,
and the upper end of a link comes first; so where the ids are distinct and can be told from the names before them no
two records have one key (`Branch.nodup_keys`).
-/

namespace PropertyGraph

/-! ## Links of a tree -/

/-- A step down a tree: the side that leads from a node to one below it. -/
structure Link where
  side : EdgeSide
  near : String
  far : String

/-- The edge of a link. -/
def Link.edge (l : Link) (stamp : Stamp) : Edge := l.side.link l.near l.far stamp

mutual

/-- The links below the node of a branch. -/
def Branch.links : Branch → List Link
  | .mk node twigs => Twig.linksBelow node.id twigs

/-- The links below a node: for each twig those to its nodes, then those of its branches. -/
def Twig.linksBelow (parent : String) : List Twig → List Link
  | [] => []
  | .mk side children :: rest =>
    children.map (fun child => ⟨side, parent, child.node.id⟩) ++ Branch.linksOf children ++ Twig.linksBelow parent rest

/-- The links of branches, one after the other. -/
def Branch.linksOf : List Branch → List Link
  | [] => []
  | branch :: rest => branch.links ++ Branch.linksOf rest

end

/-- The nodes among records. -/
def nodesOf (records : List Record) : List Node := records.filterMap Record.node?

/-- The edges among records. -/
def edgesOf (records : List Record) : List Edge := records.filterMap Record.edge?

/-- The nodes among records are those of which one is the record. -/
theorem mem_nodesOf {records : List Record} {n : Node} : n ∈ nodesOf records ↔ .node n ∈ records := by
  rw [nodesOf, List.mem_filterMap]
  constructor
  · rintro ⟨r, hr, hnode⟩
    cases r with
    | node other => exact Option.some.inj hnode ▸ hr
    | edge e => exact absurd hnode.symm (Option.some_ne_none _)
  · intro h
    exact ⟨_, h, rfl⟩

/-- The edges among records are those of which one is the record. -/
theorem mem_edgesOf {records : List Record} {e : Edge} : e ∈ edgesOf records ↔ .edge e ∈ records := by
  rw [edgesOf, List.mem_filterMap]
  constructor
  · rintro ⟨r, hr, hedge⟩
    cases r with
    | node n => exact absurd hedge.symm (Option.some_ne_none _)
    | edge other => exact Option.some.inj hedge ▸ hr
  · intro h
    exact ⟨_, h, rfl⟩

theorem nodesOf_append (records others : List Record) :
    nodesOf (records ++ others) = nodesOf records ++ nodesOf others :=
  List.filterMap_append

theorem edgesOf_append (records others : List Record) :
    edgesOf (records ++ others) = edgesOf records ++ edgesOf others :=
  List.filterMap_append

/-- Records are the nodes among them and the edges among them. -/
theorem perm_nodesOf_edgesOf (records : List Record) :
    records.Perm ((nodesOf records).map Record.node ++ (edgesOf records).map Record.edge) := by
  induction records with
  | nil => exact .nil
  | cons r rest ih =>
    cases r with
    | node n => exact ih.cons _
    | edge e => exact (ih.cons _).trans List.perm_middle.symm

theorem nodesOf_map_edge {α : Type} (f : α → Edge) (l : List α) : nodesOf (l.map fun a => .edge (f a)) = [] := by
  rw [nodesOf, List.filterMap_map]
  exact List.filterMap_eq_nil_iff.mpr fun _ _ => rfl

theorem edgesOf_map_edge {α : Type} (f : α → Edge) (l : List α) : edgesOf (l.map fun a => .edge (f a)) = l.map f := by
  have hedge : (Record.edge? ∘ fun a => .edge (f a)) = some ∘ f := rfl
  rw [edgesOf, List.filterMap_map, hedge, List.filterMap_eq_map]

mutual

/-- The nodes of a branch, each before those below it. -/
def Branch.nodes : Branch → List Node
  | .mk node twigs => node :: Twig.nodesBelow twigs

/-- The nodes below a node, from left to right. -/
def Twig.nodesBelow : List Twig → List Node
  | [] => []
  | .mk _ children :: rest => Branch.nodesIn children ++ Twig.nodesBelow rest

/-- The nodes of branches, one after the other. -/
def Branch.nodesIn : List Branch → List Node
  | [] => []
  | branch :: rest => branch.nodes ++ Branch.nodesIn rest

end

mutual

/-- The nodes of a branch have its ids, in their order. -/
theorem Branch.map_id_nodes : (branch : Branch) → branch.nodes.map Node.id = branch.ids
  | .mk node twigs => by
    rw [Branch.nodes, List.map_cons, Twig.map_id_nodesBelow, Branch.ids]

/-- The nodes below a node have the ids below it, in their order. -/
theorem Twig.map_id_nodesBelow : (twigs : List Twig) → (Twig.nodesBelow twigs).map Node.id = Twig.idsOf twigs
  | [] => by
    rw [Twig.nodesBelow, Twig.idsOf]
    rfl
  | .mk side children :: rest => by
    rw [Twig.nodesBelow, List.map_append, Branch.map_id_nodesIn, Twig.map_id_nodesBelow, Twig.idsOf]

/-- The nodes of branches have their ids, in their order. -/
theorem Branch.map_id_nodesIn : (branches : List Branch) → (Branch.nodesIn branches).map Node.id = Branch.idsOf branches
  | [] => by
    rw [Branch.nodesIn, Branch.idsOf]
    rfl
  | branch :: rest => by
    rw [Branch.nodesIn, List.map_append, Branch.map_id_nodes, Branch.map_id_nodesIn, Branch.idsOf]

end

mutual

theorem Branch.nodes_perm : (branch : Branch) → (nodesOf branch.records).Perm branch.nodes
  | .mk node twigs => by
    rw [Branch.records, nodesOf_append, Branch.nodes]
    exact List.perm_append_comm.trans ((Twig.nodes_perm node twigs).cons node)

/-- The nodes among the records below a node are those below it. -/
theorem Twig.nodes_perm (parent : Node) : (twigs : List Twig) →
    (nodesOf (Twig.recordsBelow parent twigs)).Perm (Twig.nodesBelow twigs)
  | [] => by
    rw [Twig.recordsBelow, Twig.nodesBelow]
    exact .nil
  | .mk side children :: rest => by
    rw [Twig.recordsBelow, nodesOf_append, nodesOf_append, nodesOf_map_edge, List.nil_append, Twig.nodesBelow]
    exact (Branch.nodesIn_perm children).append (Twig.nodes_perm parent rest)

/-- The nodes among the records of branches are their nodes. -/
theorem Branch.nodesIn_perm :
    (branches : List Branch) → (nodesOf (Branch.recordsOf branches)).Perm (Branch.nodesIn branches)
  | [] => by
    rw [Branch.recordsOf, Branch.nodesIn]
    exact .nil
  | branch :: rest => by
    rw [Branch.recordsOf, nodesOf_append, Branch.nodesIn]
    exact (Branch.nodes_perm branch).append (Branch.nodesIn_perm rest)

end

theorem Branch.nodesOf_perm (branches : List Branch) :
    ((nodesOf (Branch.recordsOf branches)).map Node.id).Perm (Branch.idsOf branches) := by
  rw [← Branch.map_id_nodesIn]
  exact (Branch.nodesIn_perm branches).map Node.id

mutual

/-- The edges of a well made branch are those of its links. -/
theorem Branch.edges_eq {g : Grower} {typeName : String} : (branch : Branch) → branch.IsGrown g typeName →
    edgesOf branch.records = branch.links.map (Link.edge · g.stamp)
  | .mk node twigs, ⟨hgrown, htwigs⟩ => by
    rw [Branch.records, edgesOf_append, Branch.links, Twig.edges_eq node hgrown.stamp_eq twigs htwigs]
    exact List.append_nil _

/-- The edges below a node are those of the links below it. -/
theorem Twig.edges_eq {g : Grower} {typeName : String} (parent : Node) (hstamp : parent.stamp = g.stamp) :
    (twigs : List Twig) →
    Twig.AreGrown g typeName twigs → edgesOf (Twig.recordsBelow parent twigs) = (Twig.linksBelow parent.id twigs).map
      (Link.edge · g.stamp)
  | [], _ => by
    rw [Twig.recordsBelow, Twig.linksBelow]
    rfl
  | .mk side children :: rest, ⟨_, hchildren, hrest⟩ => by
    rw [Twig.recordsBelow, edgesOf_append, edgesOf_append, edgesOf_map_edge, Branch.edgesOf_eq children hchildren,
      Twig.edges_eq parent hstamp rest hrest, Twig.linksBelow, List.map_append, List.map_append, List.map_map, hstamp]
    rfl

/-- The edges of well made branches are those of their links. -/
theorem Branch.edgesOf_eq {g : Grower} {typeName : String} :
    (branches : List Branch) → Branch.AreGrown g typeName branches →
    edgesOf (Branch.recordsOf branches) = (Branch.linksOf branches).map (Link.edge · g.stamp)
  | [], _ => by
    rw [Branch.recordsOf, Branch.linksOf]
    rfl
  | branch :: rest, ⟨hbranch, hrest⟩ => by
    rw [Branch.recordsOf, edgesOf_append, Branch.edges_eq branch hbranch, Branch.edgesOf_eq rest hrest, Branch.linksOf,
      List.map_append]

end

/-! ## Ids at the ends of links -/

mutual

/-- The ids of a branch are that of its node and those at the lower ends of its links. -/
theorem Branch.ids_perm : (branch : Branch) → branch.ids.Perm (branch.node.id :: branch.links.map Link.far)
  | .mk node twigs => by
    rw [Branch.ids, Branch.links, Branch.node]
    exact (Twig.idsOf_perm node.id twigs).cons node.id

/-- The ids below a node are those at the lower ends of the links below it. -/
theorem Twig.idsOf_perm (parent : String) :
    (twigs : List Twig) → (Twig.idsOf twigs).Perm ((Twig.linksBelow parent twigs).map Link.far)
  | [] => by
    rw [Twig.idsOf, Twig.linksBelow]
    exact .nil
  | .mk side children :: rest => by
    rw [Twig.idsOf, Twig.linksBelow, List.map_append, List.map_append, List.map_map]
    exact (Branch.idsOf_perm children).append (Twig.idsOf_perm parent rest)

/-- The ids of branches are those of their nodes and those at the lower ends of their links. -/
theorem Branch.idsOf_perm : (branches : List Branch) →
    (Branch.idsOf branches).Perm (branches.map (fun branch => branch.node.id) ++ (Branch.linksOf branches).map Link.far)
  | [] => by
    rw [Branch.idsOf, Branch.linksOf]
    exact .nil
  | branch :: rest => by
    rw [Branch.idsOf, Branch.linksOf, List.map_cons, List.map_append, List.cons_append]
    have hswap : (branch.links.map Link.far ++
      (rest.map (fun branch => branch.node.id) ++ (Branch.linksOf rest).map Link.far)).Perm
        (rest.map (fun branch => branch.node.id) ++
          (branch.links.map Link.far ++ (Branch.linksOf rest).map Link.far)) := by
      rw [← List.append_assoc, ← List.append_assoc]
      exact List.perm_append_comm.append_right _
    exact ((Branch.ids_perm branch).append (Branch.idsOf_perm rest)).trans (hswap.cons _)

end

mutual

/-- The upper end of a link of a branch comes before its lower end. -/
theorem Branch.ends_sublist : (branch : Branch) → ∀ l ∈ branch.links, [l.near, l.far].Sublist branch.ids
  | .mk node twigs => by
    intro l hl
    rw [Branch.links] at hl
    rw [Branch.ids]
    rcases Twig.ends_sublist node.id twigs l hl with ⟨hnear, hfar⟩ | h
    · rw [hnear]
      exact List.Sublist.cons_cons _ (List.singleton_sublist.mpr hfar)
    · exact h.cons _

/-- A link below a node begins at that node, or its upper end comes before its lower end among the ids below the node.
-/
theorem Twig.ends_sublist (parent : String) : (twigs : List Twig) → ∀ l ∈ Twig.linksBelow parent twigs,
    (l.near = parent ∧ l.far ∈ Twig.idsOf twigs) ∨ [l.near, l.far].Sublist (Twig.idsOf twigs)
  | [] => by
    intro l hl
    rw [Twig.linksBelow] at hl
    exact absurd hl List.not_mem_nil
  | .mk side children :: rest => by
    intro l hl
    rw [Twig.linksBelow, List.mem_append, List.mem_append] at hl
    rw [Twig.idsOf, List.mem_append]
    rcases hl with (hl | hl) | hl
    · obtain ⟨child, hchild, rfl⟩ := List.mem_map.mp hl
      have hids : child.node.id ∈ Branch.idsOf children :=
        (Branch.idsOf_perm children).mem_iff.mpr (List.mem_append_left _ (List.mem_map_of_mem hchild))
      exact Or.inl ⟨rfl, Or.inl hids⟩
    · exact Or.inr ((Branch.endsOf_sublist children l hl).trans (List.sublist_append_left ..))
    · rcases Twig.ends_sublist parent rest l hl with ⟨hnear, hfar⟩ | h
      · exact Or.inl ⟨hnear, Or.inr hfar⟩
      · exact Or.inr (h.trans (List.sublist_append_right ..))

/-- The upper end of a link of branches comes before its lower end. -/
theorem Branch.endsOf_sublist : (branches : List Branch) → ∀ l ∈ Branch.linksOf branches,
    [l.near, l.far].Sublist (Branch.idsOf branches)
  | [] => by
    intro l hl
    rw [Branch.linksOf] at hl
    exact absurd hl List.not_mem_nil
  | branch :: rest => by
    intro l hl
    rw [Branch.linksOf, List.mem_append] at hl
    rw [Branch.idsOf]
    rcases hl with hl | hl
    · exact (Branch.ends_sublist branch l hl).trans (List.sublist_append_left ..)
    · exact (Branch.endsOf_sublist rest l hl).trans (List.sublist_append_right ..)

end

mutual

/-- Of the nodes of a link of a branch, the lower one is written first. -/
theorem Branch.rows_sublist :
    (branch : Branch) → ∀ l ∈ branch.links, [l.far, l.near].Sublist ((nodesOf branch.records).map Node.id)
  | .mk node twigs => by
    intro l hl
    rw [Branch.links] at hl
    rw [Branch.records, nodesOf_append, List.map_append]
    rcases Twig.rows_sublist node twigs l hl with ⟨hnear, hfar⟩ | h
    · rw [hnear]
      exact (List.singleton_sublist.mpr hfar).append (List.Sublist.refl [node.id])
    · exact h.trans (List.sublist_append_left ..)

/-- A link below a node begins at that node and ends at one that is written below it, or its lower node is written
before its upper one. -/
theorem Twig.rows_sublist (parent : Node) : (twigs : List Twig) → ∀ l ∈ Twig.linksBelow parent.id twigs,
    (l.near = parent.id ∧ l.far ∈ (nodesOf (Twig.recordsBelow parent twigs)).map Node.id) ∨
      [l.far, l.near].Sublist ((nodesOf (Twig.recordsBelow parent twigs)).map Node.id)
  | [] => by
    intro l hl
    rw [Twig.linksBelow] at hl
    exact absurd hl List.not_mem_nil
  | .mk side children :: rest => by
    intro l hl
    rw [Twig.linksBelow, List.mem_append, List.mem_append] at hl
    rw [Twig.recordsBelow, nodesOf_append, nodesOf_append, nodesOf_map_edge, List.nil_append, List.map_append,
      List.mem_append]
    rcases hl with (hl | hl) | hl
    · obtain ⟨child, hchild, rfl⟩ := List.mem_map.mp hl
      have hids : child.node.id ∈ Branch.idsOf children :=
        (Branch.idsOf_perm children).mem_iff.mpr (List.mem_append_left _ (List.mem_map_of_mem hchild))
      exact Or.inl ⟨rfl, Or.inl ((Branch.nodesOf_perm children).mem_iff.mpr hids)⟩
    · exact Or.inr ((Branch.rowsOf_sublist children l hl).trans (List.sublist_append_left ..))
    · rcases Twig.rows_sublist parent rest l hl with ⟨hnear, hfar⟩ | h
      · exact Or.inl ⟨hnear, Or.inr hfar⟩
      · exact Or.inr (h.trans (List.sublist_append_right ..))

/-- Of the nodes of a link of branches, the lower one is written first. -/
theorem Branch.rowsOf_sublist : (branches : List Branch) → ∀ l ∈ Branch.linksOf branches,
    [l.far, l.near].Sublist ((nodesOf (Branch.recordsOf branches)).map Node.id)
  | [] => by
    intro l hl
    rw [Branch.linksOf] at hl
    exact absurd hl List.not_mem_nil
  | branch :: rest => by
    intro l hl
    rw [Branch.linksOf, List.mem_append] at hl
    rw [Branch.recordsOf, nodesOf_append, List.map_append]
    rcases hl with hl | hl
    · exact (Branch.rows_sublist branch l hl).trans (List.sublist_append_left ..)
    · exact (Branch.rowsOf_sublist rest l hl).trans (List.sublist_append_right ..)

end

/-! ## Keys of the records -/

/-- Whether an id can be told from the name before it in a data type: it has no separator in it, and does not begin
with a part of one. -/
def isSeparable (id : String) : Prop := ¬ sortSeparator.toList <:+: id.toList ∧ id.toList.head? ≠ some ':'

/-- Whether an id has no colon in it, so that it ends where a data type ends. -/
def isColonless (id : String) : Prop := ':' ∉ id.toList

theorem isColonless.isSeparable {id : String} (h : isColonless id) : isSeparable id := by
  constructor
  · intro hwithin
    exact h (hwithin.subset (by decide))
  · intro hhead
    exact h (List.mem_of_head? hhead)

/-- Whether ids can be told from the names before them in data types: none has a separator in it, and none is another
one with a colon in front, which would pass for the end of a name. -/
def AreSeparable (ids : List String) : Prop :=
  (∀ id ∈ ids, ¬ sortSeparator.toList <:+: id.toList) ∧ ∀ a ∈ ids, ∀ b ∈ ids, a.toList ≠ ':' :: b.toList

/-- Ids each of which can be told from any name can be told from the names before them. -/
theorem areSeparable_of_forall {ids : List String} (h : ∀ id ∈ ids, isSeparable id) : AreSeparable ids :=
  ⟨fun id hid => (h id hid).1, fun a ha b _ heq => (h a ha).2 (by rw [heq]; rfl)⟩

/-- Before a separator and an id without one there is another separator that ends later only where the id begins with a
colon, which is then the end of that separator. -/
theorem eq_nil_or_eq_cons {id : String} (h : ¬ sortSeparator.toList <:+: id.toList) {more back : List Char}
    (heq : ':' :: ':' :: id.toList = more ++ ':' :: ':' :: back) : more = [] ∨ id.toList = ':' :: back := by
  match more, heq with
  | [], _ => exact Or.inl rfl
  | [_], heq => exact Or.inr (List.cons.inj (List.cons.inj heq).2).2
  | _ :: _ :: rest, heq =>
    have hid : id.toList = rest ++ ':' :: ':' :: back := (List.cons.inj (List.cons.inj heq).2).2
    exact absurd ⟨rest, back, by rw [hid, List.append_assoc]; rfl⟩ h

theorem Edge.toList_sortKey (e : Edge) : e.sortKey.toList = e.name.toList ++ ':' :: ':' :: e.neighbor.toList := by
  rw [Edge.sortKey, String.toList_append, String.toList_append, sortSeparator, List.append_assoc]
  rfl

/-- Where neighbors can be told from the names before them, a data type tells the name of an edge and its neighbor. -/
theorem Edge.eq_of_sortKey_eq {ids : List String} (hids : AreSeparable ids) {e f : Edge} (he : e.neighbor ∈ ids)
    (hf : f.neighbor ∈ ids) (h : e.sortKey = f.sortKey) : e.name = f.name ∧ e.neighbor = f.neighbor := by
  have hlist : e.name.toList ++ ':' :: ':' :: e.neighbor.toList = f.name.toList ++ ':' :: ':' :: f.neighbor.toList := by
    rw [← toList_sortKey, ← toList_sortKey, h]
  have hname : e.name = f.name := by
    rcases List.append_eq_append_iff.mp hlist with ⟨more, hfront, hback⟩ | ⟨more, hfront, hback⟩
    · rcases eq_nil_or_eq_cons (hids.1 _ he) hback with rfl | hcolon
      · rw [List.append_nil] at hfront
        exact (String.toList_inj.mp hfront).symm
      · exact absurd hcolon (hids.2 _ he _ hf)
    · rcases eq_nil_or_eq_cons (hids.1 _ hf) hback with rfl | hcolon
      · rw [List.append_nil] at hfront
        exact String.toList_inj.mp hfront
      · exact absurd hcolon (hids.2 _ hf _ he)
  rw [hname] at hlist
  exact ⟨hname, String.toList_inj.mp (List.cons.inj (List.cons.inj (List.append_cancel_left hlist)).2).2⟩

/-- Records have distinct keys where their nodes have distinct ids and their edges have distinct keys. -/
theorem nodup_keys_of_parts {records : List Record} (hnodes : ((nodesOf records).map Node.id).Nodup)
    (hedges : ((edgesOf records).map fun e => (⟨e.id, e.sortKey⟩ : Key)).Nodup) : (records.map Record.key).Nodup := by
  induction records with
  | nil => exact List.Pairwise.nil
  | cons r rest ih =>
    have hmem : ∀ other ∈ rest, (∀ n, other = .node n → n ∈ nodesOf rest) ∧
        ∀ e, other = .edge e → e ∈ edgesOf rest := by
      intro other ho
      exact ⟨fun n hn => List.mem_filterMap.mpr ⟨other, ho, by rw [hn]; rfl⟩,
        fun e he => List.mem_filterMap.mpr ⟨other, ho, by rw [he]; rfl⟩⟩
    rw [List.map_cons, List.nodup_cons]
    cases r with
    | node n =>
      have hcons : nodesOf (.node n :: rest) = n :: nodesOf rest := rfl
      rw [hcons, List.map_cons, List.nodup_cons] at hnodes
      refine ⟨fun hin => ?_, ih hnodes.2 hedges⟩
      obtain ⟨other, ho, hkey⟩ := List.mem_map.mp hin
      cases other with
      | node m => exact hnodes.1 (List.mem_map.mpr ⟨m, (hmem _ ho).1 m rfl, congrArg Key.id hkey⟩)
      | edge e => exact e.sortKey_ne_nodeMarker (congrArg Key.dataType hkey)
    | edge e =>
      have hcons : edgesOf (.edge e :: rest) = e :: edgesOf rest := rfl
      rw [hcons, List.map_cons, List.nodup_cons] at hedges
      refine ⟨fun hin => ?_, ih hnodes hedges.2⟩
      obtain ⟨other, ho, hkey⟩ := List.mem_map.mp hin
      cases other with
      | node m => exact e.sortKey_ne_nodeMarker (congrArg Key.dataType hkey).symm
      | edge f => exact hedges.1 (List.mem_map.mpr ⟨f, (hmem _ ho).2 f rfl, hkey⟩)

/-- Of distinct ids, one that comes before another has the smaller place. -/
theorem idxOf_lt_of_sublist {ids : List String} (h : ids.Nodup) {a b : String} (hab : [a, b].Sublist ids) :
    ids.idxOf a < ids.idxOf b := by
  induction ids with
  | nil => exact absurd hab (by simp)
  | cons id rest ih =>
    obtain ⟨hid, hrest⟩ := List.nodup_cons.mp h
    have hne : ∀ other ∈ rest, id ≠ other := fun other ho heq => hid (heq ▸ ho)
    cases hab with
    | cons _ hab =>
      rw [List.idxOf_cons_ne _ (hne a (hab.subset (by simp))), List.idxOf_cons_ne _ (hne b (hab.subset (by simp)))]
      exact Nat.succ_lt_succ (ih hrest hab)
    | cons_cons _ hab =>
      rw [List.idxOf_cons_self, List.idxOf_cons_ne _ (hne b (hab.subset (by simp)))]
      exact Nat.succ_pos _

theorem not_sublist_swap {ids : List String} (h : ids.Nodup) {a b : String} (hab : [a, b].Sublist ids) :
    ¬ [b, a].Sublist ids := by
  intro hba
  exact Nat.lt_asymm (idxOf_lt_of_sublist h hab) (idxOf_lt_of_sublist h hba)

/-- The ends of the edge of a link are those of the link. -/
theorem Link.ends_edge (l : Link) (stamp : Stamp) :
    ((l.edge stamp).id = l.near ∧ (l.edge stamp).neighbor = l.far) ∨
    ((l.edge stamp).id = l.far ∧ (l.edge stamp).neighbor = l.near) := by
  rw [Link.edge, EdgeSide.link]
  cases l.side.principal
  · exact Or.inr ⟨rfl, rfl⟩
  · exact Or.inl ⟨rfl, rfl⟩

/-- One end of an edge of branches comes before the other. -/
theorem Branch.ends_of_edge {g : Grower} {typeName : String} {branches : List Branch}
    (h : Branch.AreGrown g typeName branches) {e : Edge} (he : e ∈ edgesOf (Branch.recordsOf branches)) :
    [e.id, e.neighbor].Sublist (Branch.idsOf branches) ∨ [e.neighbor, e.id].Sublist (Branch.idsOf branches) := by
  rw [Branch.edgesOf_eq branches h] at he
  obtain ⟨l, hl, rfl⟩ := List.mem_map.mp he
  have hsub := Branch.endsOf_sublist branches l hl
  rcases l.ends_edge g.stamp with ⟨hid, hneighbor⟩ | ⟨hid, hneighbor⟩
  · exact Or.inl (by rw [hid, hneighbor]; exact hsub)
  · exact Or.inr (by rw [hid, hneighbor]; exact hsub)

/-- Both ends of an edge of branches are among their ids. -/
theorem Branch.ends_mem_of_edge {g : Grower} {typeName : String} {branches : List Branch}
    (h : Branch.AreGrown g typeName branches) {e : Edge} (he : e ∈ edgesOf (Branch.recordsOf branches)) :
    e.id ∈ Branch.idsOf branches ∧ e.neighbor ∈ Branch.idsOf branches := by
  rcases Branch.ends_of_edge h he with hsub | hsub
  · exact ⟨hsub.subset (by simp), hsub.subset (by simp)⟩
  · exact ⟨hsub.subset (by simp), hsub.subset (by simp)⟩

/-- Where ids are distinct, no edge of branches leads from a node to itself. -/
theorem Branch.ends_ne_of_edge {g : Grower} {typeName : String} {branches : List Branch}
    (h : Branch.AreGrown g typeName branches) (hnodup : (Branch.idsOf branches).Nodup) {e : Edge}
    (he : e ∈ edgesOf (Branch.recordsOf branches)) : e.id ≠ e.neighbor := by
  rcases Branch.ends_of_edge h he with hsub | hsub
  · simpa using hnodup.sublist hsub
  · have hne : e.neighbor ≠ e.id := by simpa using hnodup.sublist hsub
    exact hne.symm

/-- The records of branches lie in the partitions of their ids. -/
theorem Branch.id_mem_of_mem_recordsOf {g : Grower} {typeName : String} {branches : List Branch}
    (h : Branch.AreGrown g typeName branches) : ∀ r ∈ Branch.recordsOf branches, r.key.id ∈ Branch.idsOf branches := by
  intro r hr
  cases r with
  | node n => exact (Branch.nodesOf_perm branches).mem_iff.mp (List.mem_map_of_mem (mem_nodesOf.mpr hr))
  | edge e => exact (Branch.ends_mem_of_edge h (mem_edgesOf.mpr hr)).1

theorem Branch.nodup_far {branches : List Branch} (h : (Branch.idsOf branches).Nodup) :
    ((Branch.linksOf branches).map Link.far).Nodup :=
  ((Branch.idsOf_perm branches).nodup_iff.mp h).sublist (List.sublist_append_right ..)

/-- Where the ids of well made branches are distinct and can be told from names before them, no two of their records
have one key: edges of opposite directions would make each end the upper one of a link to the other. -/
theorem Branch.nodup_keys {g : Grower} {typeName : String} {branches : List Branch}
    (h : Branch.AreGrown g typeName branches) (hnodup : (Branch.idsOf branches).Nodup)
    (hseparable : AreSeparable (Branch.idsOf branches)) : ((Branch.recordsOf branches).map Record.key).Nodup := by
  refine nodup_keys_of_parts ((Branch.nodesOf_perm branches).nodup_iff.mpr hnodup) ?_
  rw [Branch.edgesOf_eq branches h, List.map_map]
  refine List.pairwise_map.mpr ((List.pairwise_map.mp (Branch.nodup_far hnodup)).imp_of_mem
    fun {l m} hl hm hne hkey => ?_)
  have hsub := Branch.endsOf_sublist branches l hl
  have hsub' := Branch.endsOf_sublist branches m hm
  have hends : ∀ l ∈ Branch.linksOf branches, (l.edge g.stamp).neighbor ∈ Branch.idsOf branches := by
    intro l hl
    have hboth := (Branch.endsOf_sublist branches l hl).subset
    rcases l.ends_edge g.stamp with ⟨-, hneighbor⟩ | ⟨-, hneighbor⟩
    · exact hneighbor ▸ hboth (by simp)
    · exact hneighbor ▸ hboth (by simp)
  have hid : (l.edge g.stamp).id = (m.edge g.stamp).id := congrArg Key.id hkey
  have hneighbor : (l.edge g.stamp).neighbor = (m.edge g.stamp).neighbor :=
    (Edge.eq_of_sortKey_eq hseparable (hends l hl) (hends m hm) (congrArg Key.dataType hkey)).2
  rcases l.ends_edge g.stamp with ⟨hi, hn⟩ | ⟨hi, hn⟩ <;> rcases m.ends_edge g.stamp with ⟨hi', hn'⟩ | ⟨hi', hn'⟩
  · exact hne (hn.symm.trans (hneighbor.trans hn'))
  · rw [← hi', ← hn', ← hid, ← hneighbor, hi, hn] at hsub'
    exact not_sublist_swap hnodup hsub hsub'
  · rw [← hi', ← hn', ← hid, ← hneighbor, hi, hn] at hsub'
    exact not_sublist_swap hnodup hsub hsub'
  · exact hne (hi.symm.trans (hid.trans hi'))

end PropertyGraph
