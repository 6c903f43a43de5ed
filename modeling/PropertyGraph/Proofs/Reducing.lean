import Mathlib.Data.List.Nodup
import PropertyGraph.Proofs.PayloadTree
import PropertyGraph.Proofs.Sides
import PropertyGraph.Proofs.Walk
import PropertyGraph.Reduction

/-!
# Putting a node together

A node is put together from its own record and from edges. Where no record has expired, what stands under an edge field
are the edges of that name at the node (`edgeItems_eq`). Edges that are read from a table side by side are read by
several sides only where one name begins another; under an edge field count those of its own side alone
(`Schema.IsDistinct.filter_edgesAlong`).
-/

namespace PropertyGraph

/-! ## Live records -/

theorem liveRecords_eq_self {now : Int64} {records : List Record} (h : ∀ r ∈ records, r.isExpired now = false) :
    liveRecords now records = records := by
  refine List.filter_eq_self.mpr ?_
  intro r hr
  rw [h r hr]
  rfl

/-- The neighbor under an edge field that an edge stands for. -/
def EdgeSide.item (side : EdgeSide) (root : String) (e : Edge) : EdgeItem := ⟨side.far e, root, side.edgeName⟩

/-- Whether an edge begins at a node and has the name of a side. -/
def EdgeSide.isFrom (side : EdgeSide) (root : String) (e : Edge) : Bool :=
  e.name == side.edgeName && side.near e == root

/-- What stands under an edge field, where no record has expired. -/
theorem edgeItems_eq {now : Int64} {records : List Record} (h : ∀ r ∈ records, r.isExpired now = false) (root : String)
    (side : EdgeSide) : edgeItems now root side records = ((edgesOf records).filter (side.isFrom root)).map
      (side.item root) := by
  rw [edgeItems, liveRecords_eq_self h]
  rfl

/-- The live node of an id, where no record has expired and the ids of the nodes are distinct. -/
theorem findRoot_eq {now : Int64} {records : List Record} (h : ∀ r ∈ records, r.isExpired now = false)
    (hnodup : ((nodesOf records).map Node.id).Nodup) {n : Node} (hn : n ∈ nodesOf records) :
    findRoot now n.id records = some n := by
  rw [findRoot, liveRecords_eq_self h]
  cases hfind : (nodesOf records).find? fun m => m.id == n.id with
  | none => exact absurd (beq_self_eq_true n.id) (List.find?_eq_none.mp hfind n hn)
  | some m =>
    have hid : (m.id == n.id) = true := List.find?_some (p := fun m : Node => m.id == n.id) hfind
    rw [List.inj_on_of_nodup_map hnodup (List.mem_of_find?_eq_some hfind) hn (beq_iff_eq.mp hid)] at hfind
    exact hfind

/-! ## Edges along several sides -/

/-- Whether the sides of each type are told apart by their fields and by their edges, and no field of a side is
reserved. -/
structure Schema.IsDistinct (s : Schema) : Prop where
  fields : s.sides.Pairwise fun a b => a.owner ≠ b.owner
  edges : s.sides.Pairwise fun a b => a.owner.typeName = b.owner.typeName → a.principal = b.principal →
    a.edgeName ≠ b.edgeName
  /-- No name with its two colons begins another one. -/
  beginnings : ∀ a ∈ s.sides, ∀ b ∈ s.sides, a.owner.typeName = b.owner.typeName → a.principal = b.principal →
    a.edgeName ≠ b.edgeName → ¬ (a.edgeName ++ sortSeparator).toList <+: (b.edgeName ++ sortSeparator).toList
  free : ∀ a ∈ s.sides, Attribute.isReserved a.owner.field = false

/-- A text that ends with a character which another text lacks begins what stands before that text. -/
theorem prefix_of_prefix_append {α : Type} {c : α} {front whole rest : List α} (h : front ++ [c] <+: whole ++ rest)
    (hc : c ∉ rest) : front ++ [c] <+: whole := by
  rcases List.prefix_or_prefix_of_prefix h (List.prefix_append whole rest) with hfront | ⟨more, hmore⟩
  · exact hfront
  · rcases List.eq_nil_or_concat more with rfl | ⟨init, last, rfl⟩
    · exact ⟨[], by rw [List.append_nil, ← hmore, List.append_nil]⟩
    · obtain ⟨behind, hbehind⟩ := h
      rw [← hmore, List.append_assoc, List.append_cancel_left_eq] at hbehind
      rw [List.concat_eq_append, ← List.append_assoc] at hmore
      obtain ⟨-, hlast⟩ := List.append_inj' hmore rfl
      have hin : c ∈ rest := by
        rw [← hbehind, (List.cons.inj hlast).1]
        simp
      exact absurd hin hc

/-- Of the parts of a list of which only one is not empty, that one is left. -/
theorem flatMap_eq_of_unique {α β : Type} {l : List α} {f : α → List β} {a : α} (hnodup : l.Nodup) (ha : a ∈ l)
    (h : ∀ b ∈ l, b ≠ a → f b = []) : l.flatMap f = f a := by
  induction l with
  | nil => exact absurd ha List.not_mem_nil
  | cons b rest ih =>
    obtain ⟨hb, hrest⟩ := List.nodup_cons.mp hnodup
    rw [List.flatMap_cons]
    rcases List.mem_cons.mp ha with rfl | ha
    · have hnil : rest.flatMap f = [] := by
        rw [List.flatMap_eq_nil_iff]
        intro c hc
        exact h c (List.mem_cons_of_mem _ hc) fun heq => hb (heq ▸ hc)
      rw [hnil, List.append_nil]
    · have hne : b ≠ a := fun heq => hb (heq ▸ ha)
      rw [h b (List.mem_cons_self ..) hne, List.nil_append]
      exact ih hrest ha fun c hc hne => h c (List.mem_cons_of_mem _ hc) hne

namespace Schema.IsDistinct

variable {s : Schema} {typeName : String} {a b : EdgeSide}

theorem nodup_sidesOf (h : s.IsDistinct) (typeName : String) : (s.sidesOf typeName).Nodup := by
  rw [sidesOf_eq_filter]
  exact (h.fields.imp fun {a b} hne heq => hne (by rw [heq])).filter _

/-- The side behind the field of a side is that side. -/
theorem side?_of_mem (h : s.IsDistinct) (ha : a ∈ s.sides) : s.side? a.owner.typeName a.owner.field = some a := by
  rw [side?_eq_find?]
  cases hfind : s.sides.find? fun side => side.owner == a.owner with
  | none => exact absurd (beq_self_eq_true a.owner) (List.find?_eq_none.mp hfind a ha)
  | some b =>
    have howner : (b.owner == a.owner) = true :=
      List.find?_some (p := fun side : EdgeSide => side.owner == a.owner) hfind
    have hfields : (s.sides.map EdgeSide.owner).Nodup := List.pairwise_map.mpr h.fields
    have hba : b = a := List.inj_on_of_nodup_map hfields (List.mem_of_find?_eq_some hfind) ha (beq_iff_eq.mp howner)
    rw [hba]

/-- Sides of a type with one name and on one side of their edges are the same side. -/
theorem eq_of_edge (h : s.IsDistinct) (ha : a ∈ s.sides) (hb : b ∈ s.sides)
    (htype : a.owner.typeName = b.owner.typeName) (hprincipal : a.principal = b.principal)
    (hname : a.edgeName = b.edgeName) : a = b := by
  have hsame : ∀ c ∈ s.sides, ∀ d ∈ s.sides,
      c.owner.typeName = d.owner.typeName → c.principal = d.principal → c.edgeName = d.edgeName → c = d := by
    refine List.Pairwise.forall_of_forall_of_flip (fun _ _ _ _ _ => rfl) (h.edges.imp ?_) (h.edges.imp ?_)
    · intro c d hne htype hprincipal hname
      exact absurd hname (hne htype hprincipal)
    · intro c d hne htype hprincipal hname
      exact absurd hname.symm (hne htype.symm hprincipal.symm)
  exact hsame a ha b hb htype hprincipal hname

/-- An edge of the name of one side of a type, at a node, is not read along another side of the type: read on the same
side of its edges, the one name would begin the other, and read on the other side, it would lead from the node to
itself. -/
theorem not_mem_edgesAlong (h : s.IsDistinct) (ha : a ∈ s.sidesOf typeName) (hb : b ∈ s.sidesOf typeName)
    (hne : b ≠ a) {t : Table} {now : Int64} {root : String} {e : Edge} (hends : e.id ≠ e.neighbor)
    (hcolonless : isColonless e.neighbor) (he : e ∈ t.edgesAlong now root b none) : a.isFrom root e = false := by
  obtain ⟨-, -, -, -, hnear, hbeginning⟩ := Table.mem_edgesAlong.mp he
  obtain ⟨hina, htypea⟩ := mem_sidesOf.mp ha
  obtain ⟨hinb, htypeb⟩ := mem_sidesOf.mp hb
  rw [EdgeSide.isFrom, Bool.and_eq_false_imp]
  intro hname
  rw [beq_iff_eq] at hname
  rw [beq_eq_false_iff_ne]
  intro hneara
  by_cases hp : b.principal = a.principal
  · have hnames : b.edgeName ≠ a.edgeName := fun heq => hne (h.eq_of_edge hinb hina (htypeb.trans htypea.symm) hp heq)
    refine h.beginnings b hinb a hina (htypeb.trans htypea.symm) hp hnames ?_
    have hcut : (b.edgeName ++ sortSeparator).toList = (b.edgeName.toList ++ [':']) ++ [':'] := by
      rw [String.toList_append, sortSeparator, List.append_assoc]
      rfl
    rw [List.isPrefixOf_iff_prefix, hcut, Edge.sortKey, String.toList_append] at hbeginning
    rw [hcut, ← hname]
    exact prefix_of_prefix_append hbeginning hcolonless
  · refine hends ?_
    rw [EdgeSide.near] at hnear hneara
    cases hpa : a.principal with
    | true =>
      rw [hpa, Bool.not_eq_true] at hp
      simp only [hp, hpa, Bool.false_eq_true, if_false, if_true] at hnear hneara
      exact hneara.trans hnear.symm
    | false =>
      rw [hpa, Bool.not_eq_false] at hp
      simp only [hp, hpa, Bool.false_eq_true, if_false, if_true] at hnear hneara
      exact hnear.trans hneara.symm

/-- Of all edges that are read along the sides of a type, those that stand under the field of one side are the ones of
its name that are read along it. -/
theorem filter_edgesAlong (h : s.IsDistinct) (ha : a ∈ s.sidesOf typeName) {t : Table} {now : Int64} {root : String}
    (hends : ∀ b, ∀ e ∈ t.edgesAlong now root b none, e.id ≠ e.neighbor ∧ isColonless e.neighbor) :
    ((s.sidesOf typeName).flatMap fun b => t.edgesAlong now root b none).filter (a.isFrom root) =
      (t.edgesAlong now root a none).filter fun e => e.name == a.edgeName := by
  rw [List.filter_flatMap, flatMap_eq_of_unique (h.nodup_sidesOf typeName) ha]
  · refine List.filter_congr ?_
    intro e he
    obtain ⟨-, -, -, -, hnear, -⟩ := Table.mem_edgesAlong.mp he
    rw [EdgeSide.isFrom, beq_iff_eq.mpr hnear, Bool.and_true]
  · intro b hb hne
    rw [List.filter_eq_nil_iff]
    intro e he
    rw [h.not_mem_edgesAlong ha hb hne (hends b e he).1 (hends b e he).2 he]
    exact Bool.false_ne_true

end Schema.IsDistinct

end PropertyGraph
