import PropertyGraph.Proofs.Overwriting
import PropertyGraph.Proofs.TwoReads

/-!
# The topmost level is put together again

The records of a payload are one flat list for the whole tree, in which the name of an edge may occur at every depth
and, where a type leads to itself, in both directions. Of the links of the tree those along a side that begin at a
topmost node are the ones to its children under the field of the side, in their order (`Branch.filter_linksOf`); so
what is put together at a topmost node from all records is the object of the payload that it was grown from, with the
ids of its children (`Grower.root_level_of_expand`).
-/

namespace PropertyGraph

/-! ## Children under a field -/

/-- The branches right below a node under a field. -/
def Twig.under (field : String) (twigs : List Twig) : List Branch :=
  (twigs.filter fun twig => twig.side.owner.field == field).flatMap Twig.children

/-- The objects of levels under a field. -/
def levelsUnder (field : String) (levels : List (EdgeSide × List (Dict Json))) : List (Dict Json) :=
  (levels.filter fun level => level.1.owner.field == field).flatMap Prod.snd

/-- The objects that members hold under an edge field. -/
def objectsUnder (field : String) (members : List (String × Json)) : List (Dict Json) :=
  objectsOf ((members.lookup field).bind fun j => j.get? "data")

namespace Twig

variable {field : String} {side : EdgeSide} {children : List Branch} {rest : List Twig}

theorem under_cons_of_eq (h : side.owner.field = field) :
    under field (.mk side children :: rest) = children ++ under field rest := by
  rw [under, List.filter_cons_of_pos (by exact beq_iff_eq.mpr h), List.flatMap_cons]
  rfl

theorem under_cons_of_ne (h : side.owner.field ≠ field) :
    under field (.mk side children :: rest) = under field rest := by
  rw [under, List.filter_cons_of_neg (by exact fun heq => h (beq_iff_eq.mp heq))]
  rfl

end Twig

/-- The entries of a name, where names are distinct, are what is found under it. -/
theorem Assoc.filter_name_eq {α : Type} {entries : Assoc α} (h : (names entries).Nodup) (name : String) :
    entries.filter (fun entry => entry.1 == name) = ((entries.lookup name).map (name, ·)).toList := by
  induction entries with
  | nil => rfl
  | cons entry rest ih =>
    obtain ⟨first, content⟩ := entry
    obtain ⟨hfirst, hrest⟩ := List.nodup_cons.mp h
    by_cases heq : first = name
    · subst heq
      rw [List.filter_cons_of_pos (by simp), ih hrest, Assoc.lookup_eq_none hfirst, List.lookup_cons_self]
      rfl
    · rw [List.filter_cons_of_neg (by simpa using heq), ih hrest, List.lookup_cons,
        beq_eq_false_iff_ne.mpr (Ne.symm heq)]

/-- The levels under a field are those of the members of that name. -/
theorem filter_nestedObjects (schema : Schema) (typeName field : String) (members : List (String × Json)) :
    (nestedObjects schema typeName members).filter (fun level => level.1.owner.field == field) =
      nestedObjects schema typeName (members.filter fun member => member.1 == field) := by
  rw [nestedObjects, nestedObjects, List.filter_filterMap, List.filterMap_filter]
  refine List.filterMap_congr fun member _ => ?_
  obtain ⟨name, j⟩ := member
  cases hfound : schema.side? typeName name with
  | none => simp [hfound]
  | some side =>
    obtain rfl : side.owner.field = name := congrArg TypeField.field (Schema.mem_sidesOf_of_side? hfound).2
    by_cases heq : side.owner.field = field
    · subst heq
      cases j <;> simp [hfound]
    · cases j <;> simp [hfound, heq]

/-- The objects of the levels under an edge field are those that the members hold under it. -/
theorem levelsUnder_nestedObjects {schema : Schema} {typeName field : String} {side : EdgeSide}
    (hside : schema.side? typeName field = some side) {members : List (String × Json)}
    (hnodup : (Assoc.names members).Nodup) :
    levelsUnder field (nestedObjects schema typeName members) = objectsUnder field members := by
  rw [levelsUnder, filter_nestedObjects, Assoc.filter_name_eq hnodup, objectsUnder]
  cases members.lookup field with
  | none => rfl
  | some j => cases j <;> simp [nestedObjects, hside, objectsOf, Json.get?, Json.members?]

/-- The side of each level is the one behind its field. -/
theorem side?_of_mem_nestedObjects {schema : Schema} {typeName : String} {members : List (String × Json)}
    {level : EdgeSide × List (Dict Json)} (h : level ∈ nestedObjects schema typeName members) :
    schema.side? typeName level.1.owner.field = some level.1 := by
  obtain ⟨⟨name, j⟩, -, hlevel⟩ := List.mem_filterMap.mp h
  dsimp only at hlevel
  split at hlevel
  next side nested hside =>
    obtain rfl := Option.some.inj hlevel
    rw [(Schema.mem_sidesOf_of_side? hside).2]
    exact hside
  · exact absurd hlevel.symm (Option.some_ne_none _)

/-- Branches of objects, and branches of others behind them. -/
theorem Branch.AreOf.append {g : Grower} {typeName : String} {objects others : List (Dict Json)}
    {branches more : List Branch} (h : Branch.AreOf g typeName objects branches)
    (h' : Branch.AreOf g typeName others more) :
    Branch.AreOf g typeName (objects ++ others) (branches ++ more) := by
  induction objects generalizing branches with
  | nil =>
    match branches, h with
    | [], _ => exact h'
  | cons object objects ih =>
    match branches, h with
    | branch :: rest, h => exact ⟨h.1, ih h.2⟩

/-- The branches under a field are those of the objects of the levels under it. -/
theorem Twig.AreOf.under {g : Grower} {side : EdgeSide} {field : String} {levels : List (EdgeSide × List (Dict Json))}
    {twigs : List Twig} (h : Twig.AreOf g levels twigs)
    (hside : ∀ level ∈ levels, level.1.owner.field = field → level.1 = side) :
    Branch.AreOf g side.target (levelsUnder field levels) (Twig.under field twigs) := by
  induction levels generalizing twigs with
  | nil =>
    match twigs, h with
    | [], _ => trivial
  | cons level levels ih =>
    match twigs, h with
    | .mk own children :: rest, ⟨hown, hchildren, hrest⟩ =>
      have hbehind := ih hrest fun other ho => hside other (List.mem_cons_of_mem _ ho)
      subst hown
      rw [levelsUnder]
      by_cases heq : level.1.owner.field = field
      · obtain rfl := hside level (List.mem_cons_self ..) heq
        rw [List.filter_cons_of_pos (by simpa using heq), Twig.under_cons_of_eq heq]
        exact hchildren.append hbehind
      · rw [List.filter_cons_of_neg (by simpa using heq), Twig.under_cons_of_ne heq]
        exact hbehind

/-! ## Links from a topmost node -/

/-- Whether sides of a type are told apart by their fields, by the names and directions of their edges, and none has a
reserved field. -/
structure Schema.TellsSides (schema : Schema) (typeName : String) : Prop where
  fields : ((schema.sidesOf typeName).map fun side => side.owner.field).Nodup
  edges : ((schema.sidesOf typeName).map fun side => (side.edgeName, side.principal)).Nodup
  free : ∀ side ∈ schema.sidesOf typeName, Attribute.isReserved side.owner.field = false

/-- The side behind the field of a side that is told from the others is that side. -/
theorem Schema.TellsSides.side?_eq {schema : Schema} {typeName : String} {side : EdgeSide}
    (h : schema.TellsSides typeName) (hside : side ∈ schema.sidesOf typeName) :
    schema.side? typeName side.owner.field = some side :=
  side?_of_only (filter_field_eq (List.pairwise_map.mp h.fields) hside)

/-- The edge of a link that does not end at a node stands at it for a side where the link begins there and has the name
and the direction of the side. -/
theorem Link.isFrom_edge_iff {l : Link} {side : EdgeSide} {stamp : Stamp} {root : String} (hfar : l.far ≠ root) :
    side.isFrom root (l.edge stamp) = true ↔ (l.side.edgeName, l.side.principal) = (side.edgeName, side.principal) ∧
    l.near = root := by
  rw [EdgeSide.isFrom, Bool.and_eq_true, beq_iff_eq, beq_iff_eq, Prod.mk.injEq]
  constructor
  · rintro ⟨hname, hnear⟩
    obtain ⟨hsameName, hsameEnd, hbegins, -⟩ := Link.of_near hfar hname hnear
    exact ⟨⟨hsameName, hsameEnd⟩, hbegins⟩
  · rintro ⟨⟨hname, hprincipal⟩, hnear⟩
    obtain ⟨hend, -, hedge, -⟩ := l.side.ends_link l.near l.far stamp
    refine ⟨hedge.trans hname, ?_⟩
    rw [EdgeSide.near, ← hprincipal, ← hnear]
    exact hend

/-- Of links that neither begin nor end at a node none stands at it. -/
theorem Link.filter_isFrom_eq_nil {links : List Link} {root : String} (h : ∀ l ∈ links, l.near ≠ root ∧ l.far ≠ root)
    (side : EdgeSide) (stamp : Stamp) : links.filter (fun l => side.isFrom root (l.edge stamp)) = [] := by
  refine List.filter_eq_nil_iff.mpr fun l hl hfrom => ?_
  exact (h l hl).1 ((isFrom_edge_iff (h l hl).2).mp hfrom).2

/-- The ends of the links of branches are among their ids. -/
theorem Branch.ends_ne_of_not_mem {branches : List Branch} {root : String} (h : root ∉ Branch.idsOf branches) :
    ∀ l ∈ Branch.linksOf branches, l.near ≠ root ∧ l.far ≠ root := by
  intro l hl
  have hends := (Branch.endsOf_sublist branches l hl).subset
  exact ⟨fun heq => h (heq ▸ hends (by simp)), fun heq => h (heq ▸ hends (by simp))⟩

section links

variable {g : Grower} {typeName : String} {side : EdgeSide} (hsides : g.schema.TellsSides typeName)
  (hside : side ∈ g.schema.sidesOf typeName)

include hsides hside

/-- Of the links below a node those that stand at it for a side of its type are the ones to its children under the
field of the side: a twig of another side has another field, and another name or direction. -/
theorem Twig.filter_linksBelow {twigs : List Twig} (hgrown : Twig.AreGrown g typeName twigs) {root : String}
    (hroot : root ∉ Twig.idsOf twigs) :
    (Twig.linksBelow root twigs).filter (fun l => side.isFrom root (l.edge g.stamp)) =
      (Twig.under side.owner.field twigs).map fun child => ⟨side, root, child.node.id⟩ := by
  induction twigs with
  | nil =>
    rw [linksBelow]
    rfl
  | cons twig rest ih =>
    obtain ⟨own, children⟩ := twig
    have hown : own ∈ g.schema.sidesOf typeName := Twig.side_mem_sidesOf hgrown (List.mem_cons_self ..)
    rw [Twig.idsOf, List.mem_append, not_or] at hroot
    have hchild : ∀ child ∈ children, child.node.id ≠ root := by
      intro child hmem heq
      exact hroot.1 ((Branch.idsOf_perm children).mem_iff.mpr (List.mem_append_left _ (heq ▸ List.mem_map_of_mem hmem)))
    rw [linksBelow, List.filter_append, List.filter_append,
      Link.filter_isFrom_eq_nil (Branch.ends_ne_of_not_mem hroot.1),
      List.append_nil, ih hgrown.2.2 hroot.2]
    by_cases hsame : own = side
    · subst hsame
      rw [under_cons_of_eq rfl, List.map_append, List.filter_eq_self.mpr]
      intro l hl
      obtain ⟨child, hmem, rfl⟩ := List.mem_map.mp hl
      exact (Link.isFrom_edge_iff (hchild child hmem)).mpr ⟨rfl, rfl⟩
    · have hfield : own.owner.field ≠ side.owner.field :=
        fun heq => hsame (List.inj_on_of_nodup_map hsides.fields hown hside heq)
      rw [under_cons_of_ne hfield, List.filter_eq_nil_iff.mpr, List.nil_append]
      intro l hl hfrom
      obtain ⟨child, hmem, rfl⟩ := List.mem_map.mp hl
      exact hsame (List.inj_on_of_nodup_map hsides.edges hown hside
        ((Link.isFrom_edge_iff (hchild child hmem)).mp hfrom).1)

/-- Of the links of branches with distinct ids those that stand at a topmost node for a side of its type are the ones
to its children under the field of the side, in their order. -/
theorem Branch.filter_linksOf {branches : List Branch} (hgrown : Branch.AreGrown g typeName branches)
    (hnodup : (Branch.idsOf branches).Nodup) {branch : Branch} (hmem : branch ∈ branches) :
    (Branch.linksOf branches).filter (fun l => side.isFrom branch.node.id (l.edge g.stamp)) =
      (Twig.under side.owner.field branch.twigs).map fun child => ⟨side, branch.node.id, child.node.id⟩ := by
  induction branches with
  | nil => exact absurd hmem List.not_mem_nil
  | cons first rest ih =>
    rw [idsOf, List.nodup_append] at hnodup
    obtain ⟨hfirst, hrest, hapart⟩ := hnodup
    rw [linksOf, List.filter_append]
    rcases List.mem_cons.mp hmem with rfl | hmem
    · obtain ⟨node, twigs⟩ := branch
      have hlower : node.id ∉ Twig.idsOf twigs := (List.nodup_cons.mp (by rwa [ids] at hfirst)).1
      have hothers : node.id ∉ Branch.idsOf rest :=
        fun hother => hapart _ (by rw [ids]; exact List.mem_cons_self ..) _ hother rfl
      dsimp only [Branch.node, Branch.twigs]
      rw [Link.filter_isFrom_eq_nil (ends_ne_of_not_mem hothers), List.append_nil, links]
      exact Twig.filter_linksBelow hsides hside hgrown.1.2 hlower
    · have htop : branch.node.id ∈ Branch.idsOf rest :=
        (idsOf_perm rest).mem_iff.mpr (List.mem_append_left _ (List.mem_map_of_mem hmem))
      have hlinks : ∀ l ∈ first.links, l.near ≠ branch.node.id ∧ l.far ≠ branch.node.id := by
        intro l hl
        have hends := (ends_sublist first l hl).subset
        exact ⟨fun heq => hapart _ (hends (by simp)) _ htop heq, fun heq => hapart _ (hends (by simp)) _ htop heq⟩
      rw [Link.filter_isFrom_eq_nil hlinks, List.nil_append]
      exact ih hgrown.2 hrest hmem

end links

/-! ## The topmost level as a caller sees it -/

namespace Branch

variable {g : Grower} {typeName : String} {branches : List Branch} {branch : Branch}

/-- The node of each of branches that grew has grown, and is one of the records. -/
theorem node_isGrown_of_mem (h : AreGrown g typeName branches) (hmem : branch ∈ branches) :
    branch.node.IsGrown g typeName ∧ .node branch.node ∈ recordsOf branches := by
  induction branches with
  | nil => exact absurd hmem List.not_mem_nil
  | cons first rest ih =>
    rcases List.mem_cons.mp hmem with rfl | hmem
    · exact ⟨(node_isGrown h).1, (node_isGrown h).2.1⟩
    · obtain ⟨hgrown, hnode⟩ := ih h.2 hmem
      rw [recordsOf]
      exact ⟨hgrown, List.mem_append_right _ hnode⟩

theorem IsOf.twigs_areOf {object : Dict Json} (h : branch.IsOf g typeName object) :
    Twig.AreOf g (nestedObjects g.schema typeName object.entries) branch.twigs := by
  obtain ⟨node, twigs⟩ := branch
  exact h.2

/-- Branches of objects are one for each of them, in their order. -/
theorem AreOf.forall₂ {objects : List (Dict Json)} (h : AreOf g typeName objects branches) :
    List.Forall₂ (fun branch object => branch.IsOf g typeName object) branches objects := by
  induction objects generalizing branches with
  | nil =>
    match branches, h with
    | [], _ => exact .nil
  | cons object objects ih =>
    match branches, h with
    | first :: rest, h => exact .cons h.1 (ih h.2)

/-- The children of a branch under an edge field are the branches of the objects that its object holds there. -/
theorem IsOf.areOf_under {object : Dict Json} {side : EdgeSide} (h : branch.IsOf g typeName object)
    (hside : g.schema.side? typeName side.owner.field = some side) :
    AreOf g side.target (objectsUnder side.owner.field object.entries) (Twig.under side.owner.field branch.twigs) := by
  rw [← levelsUnder_nestedObjects hside object.nodup_names]
  refine h.twigs_areOf.under fun level hlevel hfield => ?_
  exact Option.some.inj ((side?_of_mem_nestedObjects hlevel).symm.trans (hfield ▸ hside))

/-- The fields of an object at a place for nodes of a type as a caller sees them once it is grown to a branch: the id
and the stamp of its node, the fields of its own, and under each edge field of the type the ids of its children there.
-/
def shown (g : Grower) (typeName : String) (object : Dict Json) (branch : Branch) : Fields :=
  [(Attribute.id, .string branch.node.id), (Attribute.createdAt, .string g.stamp.createdAt),
      (Attribute.updatedAt, .string g.stamp.updatedAt), (Attribute.createdBy, .string g.stamp.createdBy)] ++
    ownFields g.schema typeName object.entries ++
    (g.schema.sidesOf typeName).map fun side => (side.owner.field,
      EdgeItem.listed ((Twig.under side.owner.field branch.twigs).map
        fun child => ⟨child.node.id, branch.node.id, side.edgeName⟩))

/-- What stands under an edge field of a topmost node are the ids of its children there, in their order. -/
theorem edgeItems_recordsOf {side : EdgeSide} (hsides : g.schema.TellsSides typeName)
    (hside : side ∈ g.schema.sidesOf typeName) (hgrown : AreGrown g typeName branches)
    (hnodup : (idsOf branches).Nodup) (hmem : branch ∈ branches) (now : Int64) :
    edgeItems now branch.node.id side (recordsOf branches) =
      (Twig.under side.owner.field branch.twigs).map fun child => ⟨child.node.id, branch.node.id, side.edgeName⟩ := by
  rw [edgeItems_eq (isExpired_of_areGrown hgrown now), edgesOf_eq branches hgrown, List.filter_map]
  have hlinks : (linksOf branches).filter (side.isFrom branch.node.id ∘ (Link.edge · g.stamp)) = _ :=
    filter_linksOf hsides hside hgrown hnodup hmem
  rw [hlinks, List.map_map, List.map_map]
  refine List.map_congr_left fun child _ => ?_
  obtain ⟨-, hfar, -⟩ := side.ends_link branch.node.id child.node.id g.stamp
  rw [Function.comp_apply, Function.comp_apply, EdgeSide.item, Link.edge, hfar]

/-- The fields of the sides of a type are none of those that a node of the type has of its own. -/
theorem field_not_mem_toOutput (hsides : g.schema.TellsSides typeName) {n : Node} (hn : n.IsGrown g typeName)
    {side : EdgeSide} (hside : side ∈ g.schema.sidesOf typeName) : side.owner.field ∉ Assoc.names n.toOutput := by
  have hfree := hsides.free side hside
  rw [n.toOutput_eq hn.free, Assoc.names, List.map_append, List.mem_append, not_or]
  constructor
  · simp only [List.map_cons, List.map_nil, List.mem_cons, List.not_mem_nil, or_false]
    rintro (heq | heq | heq | heq) <;> exact absurd (heq ▸ hfree) (by decide)
  · intro hfield
    exact Option.some_ne_none _ ((hsides.side?_eq hside).symm.trans (hn.plain _ hfield))

/-- What is put together at a topmost node are the fields of its object. -/
theorem reduce_recordsOf (hsides : g.schema.TellsSides typeName) (hgrown : AreGrown g typeName branches)
    (hnodup : (idsOf branches).Nodup) (hmem : branch ∈ branches) {object : Dict Json}
    (hobject : branch.IsOf g typeName object) (now : Int64) :
    reduce g.schema now branch.node.id (recordsOf branches) = some (branch.shown g typeName object) := by
  obtain ⟨hn, hnode⟩ := node_isGrown_of_mem hgrown hmem
  have hroot := findRoot_eq (isExpired_of_areGrown hgrown now) ((nodesOf_perm branches).nodup_iff.mpr hnodup)
    (mem_nodesOf.mpr hnode)
  have hcontents : (g.schema.sidesOf typeName).map
    (fun side => (side.owner.field, edgeContent now branch.node.id side (recordsOf branches))) =
      (g.schema.sidesOf typeName).map fun side => (side.owner.field, EdgeItem.listed
        ((Twig.under side.owner.field branch.twigs).map
          fun child => ⟨child.node.id, branch.node.id, side.edgeName⟩)) := by
    refine List.map_congr_left fun side hside => ?_
    rw [edgeContent, edgeItems_recordsOf hsides hside hgrown hnodup hmem now]
    rfl
  have hown : branch.node.fields = ownFields g.schema typeName object.entries := by
    rw [hobject.node_eq]
  have hwritten : (g.schema.sidesOf typeName).foldl
      (fun out side => Assoc.insert side.owner.field (edgeContent now branch.node.id side (recordsOf branches)) out)
        branch.node.toOutput =
      branch.node.toOutput ++
        (g.schema.sidesOf typeName).map
          fun side => (side.owner.field, edgeContent now branch.node.id side (recordsOf branches)) := by
    rw [← writeFields_eq_append, writeFields, List.foldl_map]
    · rw [Assoc.names, List.map_map]
      exact hsides.fields
    · intro name hname
      rw [Assoc.names, List.map_map] at hname
      obtain ⟨side, hside, rfl⟩ := List.mem_map.mp hname
      exact field_not_mem_toOutput hsides hn hside
  rw [reduce, hroot, Option.map_some, hn.typeName_eq, hwritten, hcontents, branch.node.toOutput_eq hn.free, hn.stamp_eq,
    hown, shown]

/-- No field that a caller sees of a topmost node has a name that begins as those of the library do. -/
theorem not_reserved_of_mem_shown (hsides : g.schema.TellsSides typeName) (hn : branch.node.IsGrown g typeName)
    {object : Dict Json} (hobject : branch.IsOf g typeName object) :
    ∀ field ∈ branch.shown g typeName object, ¬ Attribute.reservedBeginning.toList <+: field.1.toList := by
  have hheader : ∀ name ∈ [Attribute.id, Attribute.createdAt, Attribute.updatedAt, Attribute.createdBy],
      ¬ Attribute.reservedBeginning.toList <+: name.toList := by
    decide
  have hbegins : ∀ name, Attribute.isReserved name = false → ¬ Attribute.reservedBeginning.toList <+: name.toList := by
    intro name hfree hprefix
    rw [Attribute.isReserved, List.isPrefixOf_iff_prefix.mpr hprefix] at hfree
    simp at hfree
  intro field hfield
  rw [shown, List.mem_append, List.mem_append] at hfield
  rcases hfield with (hfield | hfield) | hfield
  · exact hheader _ (List.mem_map_of_mem hfield)
  · have hname : field.1 ∈ Assoc.names branch.node.fields := by
      rw [hobject.node_eq]
      exact List.mem_map_of_mem hfield
    exact hbegins _ (hn.free.2 _ hname)
  · obtain ⟨side, hside, rfl⟩ := List.mem_map.mp hfield
    exact hbegins _ (hsides.free side hside)

end Branch

/-- What was grown is put together again. Where the sides of a type are told apart and the id that is given and those
that are drawn are distinct, an expansion is the tree of its payload, and for every topmost object and its branch: (1)
the children of the branch under each edge field are the branches of the objects that the payload has there, in their
order; (2) at every time, what is put together from all records at the id of the branch is the id, the stamp, the
fields of the object in their order, and then for each side of the type, in the order of the schema, the list of the
ids of the children under its field; (3) none of these names begins as those of the library do. -/
theorem Grower.root_level_of_expand {g : Grower} {typeName : String} {data connections : Option Json}
    {first : Option String} {ids ids' : IdSource} {expansion : Expansion}
    (h : g.expand typeName data connections first ids = (.ok expansion, ids'))
    (hnodup : (first.toList ++ ids.drawnSince ids').Nodup) (hsides : g.schema.TellsSides typeName) :
    ∃ branches, expansion.IsTreeOf g typeName data first ids ids' branches ∧
      List.Forall₂ (fun branch object =>
        (∀ side ∈ g.schema.sidesOf typeName,
          Branch.AreOf g side.target (objectsUnder side.owner.field object.entries)
            (Twig.under side.owner.field branch.twigs)) ∧
        (∀ now, reduce g.schema now branch.node.id expansion.records = some (branch.shown g typeName object)) ∧
        ∀ field ∈ branch.shown g typeName object, ¬ Attribute.reservedBeginning.toList <+: field.1.toList) branches
          (objectsOf data) := by
  obtain ⟨branches, rfl, hgrown, hof, hgives⟩ := expand_eq_tree h
  have hids : (Branch.idsOf branches).Nodup := hgives.nodup hnodup
  refine ⟨branches, Expansion.isTreeOf_ofBranches hgrown hof hgives hids, ?_⟩
  have hall := (List.forall₂_and_left _ _).mpr ⟨fun branch (hmem : branch ∈ branches) => hmem, hof.forall₂⟩
  refine hall.imp fun branch object hbranch => ?_
  obtain ⟨hmem, hobject⟩ := hbranch
  refine ⟨fun side hside => hobject.areOf_under (hsides.side?_eq hside), fun now => ?_, ?_⟩
  · exact Branch.reduce_recordsOf hsides hgrown hids hmem hobject now
  · exact Branch.not_reserved_of_mem_shown hsides (Branch.node_isGrown_of_mem hgrown hmem).1 hobject

namespace Sample

/-- A user who follows two others is put together from all three users and the edges between them, although the same
edges stand at the two others for the field that leads back. -/
theorem newcomer_is_put_together : users.schema.TellsSides "User" ∧
    ∃ out, reduce users.schema 5 "eve" (Branch.recordsOf [newcomers (users.grower ⟨0, 0⟩).stamp]) = some out ∧
      Assoc.names out = ["id", "createdAt", "updatedAt", "createdBy", "name", "follows", "followers"] ∧
      out.lookup "name" = some (.string "Eve") := by
  have hsides : users.schema.TellsSides "User" := ⟨by decide, by decide, by decide⟩
  have hdrawn : ((none : Option String).toList ++ (fresh 0).drawnSince (fresh 3)).Nodup := by
    decide
  obtain ⟨branches, htree, hall⟩ := Grower.root_level_of_expand (expand_newcomer ⟨0, 0⟩) hdrawn hsides
  have hobjects : objectsOf newcomer.data = [Dict.ofList [("name", .string "Eve"), ("follows", followed)]] := rfl
  rw [hobjects] at hall
  cases hall with
  | @cons branch _ _ _ hback hrest =>
    cases hrest
    obtain ⟨-, hreduce, -⟩ := hback
    have hroot : "eve" = branch.node.id := (List.cons.inj htree.roots).1
    exact ⟨hsides, _, by rw [hroot]; exact hreduce 5, rfl, rfl⟩

end Sample

end PropertyGraph
