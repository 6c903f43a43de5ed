import PropertyGraph.Payload.Expand
import PropertyGraph.Proofs.Ascending
import PropertyGraph.Proofs.Codec
import PropertyGraph.Proofs.PayloadObjects
import PropertyGraph.Proofs.Sides

/-!
# What grows from a payload

Where a payload is expanded without a fault, the tree that it grows to is that of its objects (`Branch.AreOf`) and well
made (`Branch.IsGrown`): every node has the type that its place asks for, a stamp and no time to live, and its fields
have free names of which none leads over a relationship; below it are nodes of the types at the other sides. Its ids,
read from the top and from left to right, are the one that is given for the first node and those that were drawn
(`Grower.expand_eq_tree`).
-/

namespace PropertyGraph

/-! ## Ids of a tree -/

mutual

/-- The ids of a branch: that of its node, then those below it. -/
def Branch.ids : Branch → List String
  | .mk node twigs => node.id :: Twig.idsOf twigs

/-- The ids below a node, from left to right. -/
def Twig.idsOf : List Twig → List String
  | [] => []
  | .mk _ children :: rest => Branch.idsOf children ++ Twig.idsOf rest

/-- The ids of branches, one after the other. -/
def Branch.idsOf : List Branch → List String
  | [] => []
  | branch :: rest => branch.ids ++ Branch.idsOf rest

end

/-! ## Trees that are well made -/

/-- Whether a node is one that grows at a place for nodes of a type. -/
structure Node.IsGrown (g : Grower) (typeName : String) (n : Node) : Prop where
  typeName_eq : n.typeName = typeName
  stamp_eq : n.stamp = g.stamp
  ttl_eq : n.ttl = none
  free : n.fields.AreFree
  /-- No field leads over a relationship. -/
  plain : ∀ name ∈ Assoc.names n.fields, g.schema.side? typeName name = none

theorem Node.IsGrown.isOver_ttl {g : Grower} {typeName : String} {n : Node} (h : n.IsGrown g typeName) (now : Int64) :
    isOver n.ttl now = false := by
  rw [h.ttl_eq]
  rfl

mutual

/-- Whether a branch is one that grows at a place for nodes of a type. -/
def Branch.IsGrown (g : Grower) (typeName : String) : Branch → Prop
  | .mk node twigs => node.IsGrown g typeName ∧ Twig.AreGrown g typeName twigs

/-- Whether twigs are such that grow below a node of a type. -/
def Twig.AreGrown (g : Grower) (typeName : String) : List Twig → Prop
  | [] => True
  | .mk side children :: rest =>
    (∃ field, g.schema.side? typeName field = some side) ∧ Branch.AreGrown g side.target children ∧
    Twig.AreGrown g typeName rest

/-- Whether all branches are such that grow at a place for nodes of a type. -/
def Branch.AreGrown (g : Grower) (typeName : String) : List Branch → Prop
  | [] => True
  | branch :: rest => branch.IsGrown g typeName ∧ Branch.AreGrown g typeName rest

end

mutual

/-- What holds of every node that grows and of every edge that is written holds of the records of a well made branch. -/
theorem Branch.forall_records {g : Grower} {p : Record → Prop}
    (hnode : ∀ typeName n, Node.IsGrown g typeName n → p (.node n))
    (hedge : ∀ side ∈ g.schema.sides, ∀ near far, p (.edge (side.link near far g.stamp))) {typeName : String} :
    (branch : Branch) → branch.IsGrown g typeName → ∀ r ∈ branch.records, p r
  | .mk node twigs, ⟨hgrown, htwigs⟩ => by
    intro r hr
    rw [Branch.records] at hr
    rcases List.mem_append.mp hr with hr | hr
    · exact Twig.forall_records hnode hedge node hgrown.stamp_eq twigs htwigs r hr
    · rw [List.mem_singleton.mp hr]
      exact hnode typeName node hgrown

/-- What holds of every node that grows and of every edge that is written holds of the records below a node. -/
theorem Twig.forall_records {g : Grower} {p : Record → Prop}
    (hnode : ∀ typeName n, Node.IsGrown g typeName n → p (.node n))
    (hedge : ∀ side ∈ g.schema.sides, ∀ near far, p (.edge (side.link near far g.stamp))) {typeName : String}
    (parent : Node) (hstamp : parent.stamp = g.stamp) :
    (twigs : List Twig) → Twig.AreGrown g typeName twigs → ∀ r ∈ Twig.recordsBelow parent twigs, p r
  | [], _ => by
    intro r hr
    rw [Twig.recordsBelow] at hr
    exact absurd hr List.not_mem_nil
  | .mk side children :: rest, ⟨⟨_, hside⟩, hchildren, hrest⟩ => by
    intro r hr
    rw [Twig.recordsBelow] at hr
    rcases List.mem_append.mp hr with hr | hr
    · rcases List.mem_append.mp hr with hr | hr
      · obtain ⟨child, -, rfl⟩ := List.mem_map.mp hr
        rw [hstamp]
        exact hedge side (Schema.mem_sidesOf.mp (Schema.mem_sidesOf_of_side? hside).1).1 parent.id child.node.id
      · exact Branch.forall_recordsOf hnode hedge children hchildren r hr
    · exact Twig.forall_records hnode hedge parent hstamp rest hrest r hr

/-- What holds of every node that grows and of every edge that is written holds of the records of well made branches. -/
theorem Branch.forall_recordsOf {g : Grower} {p : Record → Prop}
    (hnode : ∀ typeName n, Node.IsGrown g typeName n → p (.node n))
    (hedge : ∀ side ∈ g.schema.sides, ∀ near far, p (.edge (side.link near far g.stamp))) {typeName : String} :
    (branches : List Branch) → Branch.AreGrown g typeName branches → ∀ r ∈ Branch.recordsOf branches, p r
  | [], _ => by
    intro r hr
    rw [Branch.recordsOf] at hr
    exact absurd hr List.not_mem_nil
  | branch :: rest, ⟨hbranch, hrest⟩ => by
    intro r hr
    rw [Branch.recordsOf] at hr
    rcases List.mem_append.mp hr with hr | hr
    · exact Branch.forall_records hnode hedge branch hbranch r hr
    · exact Branch.forall_recordsOf hnode hedge rest hrest r hr

end

/-- The records of well made branches can be stored. -/
theorem Branch.isStorable_of_areGrown {g : Grower} {typeName : String} {branches : List Branch}
    (h : Branch.AreGrown g typeName branches) : ∀ r ∈ Branch.recordsOf branches, r.IsStorable :=
  Branch.forall_recordsOf (fun _ _ hn => hn.free) (fun _ _ _ _ => trivial) branches h

/-- The records of well made branches have no time to live. -/
theorem Branch.ttl_of_areGrown {g : Grower} {typeName : String} {branches : List Branch}
    (h : Branch.AreGrown g typeName branches) : ∀ r ∈ Branch.recordsOf branches, r.ttl = none := by
  refine Branch.forall_recordsOf (fun _ n hn => hn.ttl_eq) (fun side _ near far => ?_) branches h
  rw [Record.ttl, EdgeSide.link]
  cases side.principal <;> rfl

/-- The records of well made branches never expire. -/
theorem Branch.isExpired_of_areGrown {g : Grower} {typeName : String} {branches : List Branch}
    (h : Branch.AreGrown g typeName branches) (now : Int64) :
    ∀ r ∈ Branch.recordsOf branches, r.isExpired now = false := by
  intro r hr
  rw [Record.isExpired, ttl_of_areGrown h r hr]
  rfl

/-! ## Drawing -/

namespace IdSource

/-- Whether drawing the ids of a list, one after the other, leads from one state of a sequence to another. -/
def Draws (before : IdSource) (ids : List String) (after : IdSource) : Prop :=
  ∃ count, after = ⟨before.sequence, before.drawn + count⟩ ∧ ids = (List.range' before.drawn count).map before.sequence

theorem Draws.refl (ids : IdSource) : ids.Draws [] ids := ⟨0, rfl, rfl⟩

theorem draws_draw (ids : IdSource) : ids.Draws [ids.draw.1] ids.draw.2 := ⟨1, rfl, rfl⟩

/-- Drawing some ids and then others. -/
theorem Draws.append {before middle after : IdSource} {ids others : List String} (h : before.Draws ids middle)
    (h' : middle.Draws others after) : before.Draws (ids ++ others) after := by
  obtain ⟨count, rfl, rfl⟩ := h
  obtain ⟨more, rfl, rfl⟩ := h'
  refine ⟨count + more, by rw [Nat.add_assoc], ?_⟩
  rw [← List.range'_append_1, List.map_append]

/-- Whether ids of a tree are those that were given and drawn for it, the given one first; for an empty tree none is
drawn. -/
def Gives (before : IdSource) (first : Option String) (ids : List String) (after : IdSource) : Prop :=
  ∃ drawn, before.Draws drawn after ∧ ((ids = [] ∧ drawn = []) ∨ ids = first.toList ++ drawn)

/-- Where no id is given, all of them are drawn. -/
theorem gives_none_iff {before after : IdSource} {ids : List String} :
    before.Gives none ids after ↔ before.Draws ids after := by
  constructor
  · rintro ⟨drawn, hdraws, ⟨rfl, rfl⟩ | rfl⟩
    · exact hdraws
    · exact hdraws
  · intro hdraws
    exact ⟨ids, hdraws, Or.inr rfl⟩

/-- The id of the first node is the one that is given, else drawn. -/
theorem draws_drawUnless {ids ids' : IdSource} {first : Option String} {id : String}
    (h : ids.drawUnless first = (id, ids')) : ∃ drawn, ids.Draws drawn ids' ∧ id :: [] = first.toList ++ drawn := by
  cases first with
  | some given =>
    obtain ⟨rfl, rfl⟩ := Prod.mk.inj h
    exact ⟨[], .refl _, rfl⟩
  | none =>
    obtain ⟨rfl, rfl⟩ := Prod.mk.inj h
    exact ⟨_, ids.draws_draw, rfl⟩

/-- The ids that were drawn are those drawn since. -/
theorem Draws.drawnSince_eq {before after : IdSource} {ids : List String} (h : before.Draws ids after) :
    before.drawnSince after = ids := by
  obtain ⟨count, rfl, rfl⟩ := h
  rw [drawnSince, Nat.add_sub_cancel_left]

/-- The id that is given is the first one of a tree. -/
theorem Gives.eq_of_head? {before after : IdSource} {first : Option String} {ids : List String}
    (h : before.Gives first ids after) {given id : String} (hfirst : given ∈ first) (hid : id ∈ ids.head?) :
    id = given := by
  obtain ⟨drawn, -, ⟨rfl, -⟩ | rfl⟩ := h
  · exact absurd hid (by simp)
  · obtain rfl := Option.mem_def.mp hfirst
    exact (Option.some.inj hid).symm

/-- Where the id that is given and the ids that are drawn are distinct, the ids of the tree are. -/
theorem Gives.nodup {before after : IdSource} {first : Option String} {ids : List String}
    (h : before.Gives first ids after) (hnodup : (first.toList ++ before.drawnSince after).Nodup) : ids.Nodup := by
  obtain ⟨drawn, hdraws, ⟨rfl, -⟩ | rfl⟩ := h
  · exact List.nodup_nil
  · rwa [hdraws.drawnSince_eq] at hnodup

/-- The ids of a tree are among those that are given and drawn. -/
theorem Gives.subset {before after : IdSource} {first : Option String} {ids : List String}
    (h : before.Gives first ids after) : ids ⊆ first.toList ++ before.drawnSince after := by
  obtain ⟨drawn, hdraws, ⟨rfl, -⟩ | rfl⟩ := h
  · exact List.nil_subset _
  · rw [hdraws.drawnSince_eq]
    exact List.Subset.refl _

end IdSource

/-! ## Growing -/

theorem Dict.nodup_names {α : Type} (d : Dict α) : (d.entries.map Prod.fst).Nodup :=
  List.pairwise_map.mpr (d.ascending.imp fun {_ _} h => Std.ne_of_lt h)

/-- Whether fields and twigs are such as are read from members below a node of a type. -/
structure ReadFields.AreGrown (g : Grower) (typeName : String) (members : List (String × Json)) (r : ReadFields) :
    Prop where
  /-- The fields have names of members, in their order. -/
  names : (Assoc.names r.fields).Sublist (members.map Prod.fst)
  free : ∀ name ∈ Assoc.names r.fields, Attribute.isReserved name = false ∧ g.schema.side? typeName name = none
  twigs : Twig.AreGrown g typeName r.twigs

/-- The node of fields that are read from members of distinct names is one that grows. -/
theorem ReadFields.AreGrown.isGrown_node {g : Grower} {typeName : String} {members : List (String × Json)}
    {r : ReadFields} (h : r.AreGrown g typeName members) (hnames : (members.map Prod.fst).Nodup) (id : String) :
    (⟨id, typeName, g.stamp, none, r.fields⟩ : Node).IsGrown g typeName :=
  ⟨rfl, rfl, rfl, ⟨hnames.sublist h.names, fun name hname => (h.free name hname).1⟩,
    fun name hname => (h.free name hname).2⟩

/-- Whether fields and twigs are those of the members of an object below a type. -/
structure ReadFields.AreOf (g : Grower) (typeName : String) (members : List (String × Json)) (r : ReadFields) :
    Prop where
  fields : r.fields = ownFields g.schema typeName members
  twigs : Twig.AreOf g (nestedObjects g.schema typeName members) r.twigs

namespace Grower

variable {g : Grower}

/-- A level that asks for no connections has the branches of its objects. -/
theorem level_of_readData {typeName : String} {data connections : Option Json} {objects : List (Dict Json)}
    (hasks : asksConnections connections = false) (hdata : readData typeName data = .ok objects)
    (first : Option String) (ids : IdSource) :
    g.level typeName data connections first ids = g.branches typeName objects first ids := by
  rw [level, if_neg (by rw [hasks]; exact Bool.false_ne_true)]
  split
  next e he => exact absurd (he.symm.trans hdata) (by simp)
  next others hothers => rw [Except.ok.inj (hothers.symm.trans hdata)]

/-- An object comes before the objects behind it. -/
theorem branches_cons {typeName id : String} {object : Dict Json} {rest : List (Dict Json)} {first : Option String}
    {ids ids' ids'' last : IdSource} {read : ReadFields} {more : List Branch} (hid : ids.drawUnless first = (id, ids'))
    (hcontent : g.content typeName object.entries ids' = (.ok read, ids''))
    (hrest : g.branches typeName rest none ids'' = (.ok more, last)) :
    g.branches typeName (object :: rest) first ids =
      (.ok (.mk ⟨id, typeName, g.stamp, none, read.fields⟩ read.twigs :: more), last) := by
  rw [branches, hid]
  dsimp only
  rw [hcontent]
  dsimp only
  rw [hrest]

/-- A member that holds a value comes before the fields behind it. -/
theorem content_field {typeName field : String} {j : Json} {v : Value} {rest : List (String × Json)}
    {ids ids' : IdSource} {more : ReadFields} (hfree : Attribute.isReserved field = false)
    (hside : g.schema.side? typeName field = none) (hv : Value.ofJson j = some v)
    (hrest : g.content typeName rest ids = (.ok more, ids')) :
    g.content typeName ((field, j) :: rest) ids = (.ok ⟨(field, v) :: more.fields, more.twigs⟩, ids') := by
  rw [content, hfree, if_neg Bool.false_ne_true, hside]
  dsimp only
  rw [hrest]
  dsimp only
  rw [hv]

/-- A member that holds a level comes before the twigs behind it. -/
theorem content_twig {typeName field : String} {nested rest : List (String × Json)} {side : EdgeSide}
    {ids ids' ids'' : IdSource} {children : List Branch} {more : ReadFields}
    (hfree : Attribute.isReserved field = false) (hside : g.schema.side? typeName field = some side)
    (hmany : side.cardinality = .many)
    (hlevel : g.level side.target ((Json.object nested).get? "data") ((Json.object nested).get? "connections") none
      ids = (.ok children, ids'))
    (hrest : g.content typeName rest ids' = (.ok more, ids'')) :
    g.content typeName ((field, .object nested) :: rest) ids =
      (.ok ⟨more.fields, .mk side children :: more.twigs⟩, ids'') := by
  rw [content, hfree, if_neg Bool.false_ne_true, hside]
  dsimp only
  rw [hlevel]
  dsimp only
  rw [if_neg (by rw [hmany]; exact fun h => Cardinality.noConfusion h.1), hrest]

/-- What is proved of levels, branches and members by the recursion that grows them: a level that is not refused comes
down to its branches, branches to the members of their objects, and an object under an edge field to a level again. -/
theorem growth_induct (g : Grower) {levels : String → Option Json → Option Json → Option String → IdSource → Prop}
    {branches : String → List (Dict Json) → Option String → IdSource → Prop}
    {contents : String → List (String × Json) → IdSource → Prop}
    (level : ∀ {typeName data connections first ids}, (asksConnections connections = false →
      ∀ objects, readData typeName data = .ok objects → branches typeName objects first ids) →
        levels typeName data connections first ids)
    (none : ∀ {typeName first ids}, branches typeName [] first ids)
    (cons : ∀ {typeName object rest first ids id ids'}, ids.drawUnless first = (id, ids') →
      contents typeName object.entries ids' →
      (∀ read ids'', g.content typeName object.entries ids' = (.ok read, ids'') → branches typeName rest .none ids'') →
        branches typeName (object :: rest) first ids)
    (nothing : ∀ {typeName ids}, contents typeName [] ids)
    (reserved : ∀ {typeName field j rest ids}, Attribute.isReserved field = true →
      contents typeName ((field, j) :: rest) ids)
    (plain : ∀ {typeName field j rest ids}, ¬ Attribute.isReserved field = true →
      g.schema.side? typeName field = .none → contents typeName rest ids → contents typeName ((field, j) :: rest) ids)
    (null : ∀ {typeName field rest ids side}, ¬ Attribute.isReserved field = true →
      g.schema.side? typeName field = some side → contents typeName rest ids →
        contents typeName ((field, .null) :: rest) ids)
    (object : ∀ {typeName field nested rest ids side}, ¬ Attribute.isReserved field = true →
      g.schema.side? typeName field = some side →
      levels side.target ((Json.object nested).get? "data") ((Json.object nested).get? "connections") .none ids →
      (∀ children ids', g.level side.target ((Json.object nested).get? "data")
        ((Json.object nested).get? "connections") .none ids = (.ok children, ids') →
          ¬ (side.cardinality = .one ∧ children.length > 1) → contents typeName rest ids') →
        contents typeName ((field, .object nested) :: rest) ids)
    (other : ∀ {typeName field j rest ids side}, ¬ Attribute.isReserved field = true →
      g.schema.side? typeName field = some side → (j = .null → False) → (∀ nested, j = .object nested → False) →
        contents typeName ((field, j) :: rest) ids) :
    (∀ typeName data connections first ids, levels typeName data connections first ids) ∧
      (∀ typeName objects first ids, branches typeName objects first ids) ∧
      ∀ typeName members ids, contents typeName members ids := by
  apply Grower.level.mutual_induct g levels branches contents
  · intro typeName data connections first ids hasks
    exact level fun hunasked => absurd hasks (Bool.eq_false_iff.mp hunasked)
  · intro typeName data connections first ids hasks e hdata
    exact level fun _ objects hobjects => absurd (hobjects.symm.trans hdata) (by simp)
  · intro typeName data connections first ids hasks objects hdata ih
    exact level fun _ found hfound => Except.ok.inj (hdata.symm.trans hfound) ▸ ih
  · intro typeName first ids
    exact none
  · intro typeName first ids object rest id ids' hid e ids'' hcontent hc
    exact cons hid hc fun _ _ hread => absurd (hread.symm.trans hcontent) (by simp)
  · intro typeName first ids object rest id ids' hid read ids'' hcontent e last _ hc ih
    exact cons hid hc fun _ _ hread => (Prod.mk.inj (hcontent.symm.trans hread)).2 ▸ ih
  · intro typeName first ids object rest id ids' hid read ids'' hcontent more last _ hc ih
    exact cons hid hc fun _ _ hread => (Prod.mk.inj (hcontent.symm.trans hread)).2 ▸ ih
  · intro typeName ids
    exact nothing
  · intro typeName ids field j rest hreserved
    exact reserved hreserved
  · intro typeName ids field j rest hfree hside e ids' _ ih
    exact plain hfree hside ih
  · intro typeName ids field j rest hfree hside more ids' _ v _ ih
    exact plain hfree hside ih
  · intro typeName ids field j rest hfree hside more ids' _ _ ih
    exact plain hfree hside ih
  · intro typeName ids field rest hfree side hside ih
    exact null hfree hside ih
  · intro typeName ids field rest hfree side hside nested e ids' hlevel ih
    exact object hfree hside ih fun _ _ hgrown => absurd (hgrown.symm.trans hlevel) (by simp)
  · intro typeName ids field rest hfree side hside nested children ids' hlevel hmany ih
    refine object hfree hside ih fun _ _ hgrown hfew => absurd ?_ hfew
    obtain ⟨hchildren, -⟩ := Prod.mk.inj (hlevel.symm.trans hgrown)
    exact Except.ok.inj hchildren ▸ hmany
  · intro typeName ids field rest hfree side hside nested children ids' hlevel _ e ids'' _ hnested ih
    exact object hfree hside hnested fun _ _ hgrown _ => (Prod.mk.inj (hlevel.symm.trans hgrown)).2 ▸ ih
  · intro typeName ids field rest hfree side hside nested children ids' hlevel _ more ids'' _ hnested ih
    exact object hfree hside hnested fun _ _ hgrown _ => (Prod.mk.inj (hlevel.symm.trans hgrown)).2 ▸ ih
  · intro typeName ids field j rest hfree side hside hnull hobject
    exact other hfree hside hnull hobject

/-- What holds of a level that was grown. -/
abbrev LevelGrows (g : Grower) (typeName : String) (data connections : Option Json) (first : Option String)
    (ids : IdSource) : Prop :=
  ∀ branches ids', g.level typeName data connections first ids = (.ok branches, ids') →
    Branch.AreGrown g typeName branches ∧ Branch.AreOf g typeName (objectsOf data) branches ∧
      ids.Gives first (Branch.idsOf branches) ids'

/-- What holds of branches that were grown. -/
abbrev BranchesGrow (g : Grower) (typeName : String) (objects : List (Dict Json)) (first : Option String)
    (ids : IdSource) : Prop :=
  ∀ branches ids', g.branches typeName objects first ids = (.ok branches, ids') →
    Branch.AreGrown g typeName branches ∧ Branch.AreOf g typeName objects branches ∧
    ids.Gives first (Branch.idsOf branches) ids'

/-- What holds of members that were read. -/
abbrev ContentGrows (g : Grower) (typeName : String) (members : List (String × Json)) (ids : IdSource) : Prop :=
  ∀ content ids', g.content typeName members ids = (.ok content, ids') →
    content.AreGrown g typeName members ∧ content.AreOf g typeName members ∧ ids.Draws (Twig.idsOf content.twigs) ids'

/-- A level that is not refused has the branches of its objects. -/
theorem levelGrows {typeName : String} {data connections : Option Json} {first : Option String} {ids : IdSource}
    (ih : asksConnections connections = false → ∀ objects, readData typeName data = .ok objects →
      BranchesGrow g typeName objects first ids) :
    LevelGrows g typeName data connections first ids := by
  intro branches ids' h
  cases hasks : asksConnections connections with
  | true =>
    rw [Grower.level, if_pos hasks] at h
    simp at h
  | false =>
    cases hdata : readData typeName data with
    | error e =>
      rw [Grower.level, if_neg (Bool.eq_false_iff.mp hasks), hdata] at h
      simp at h
    | ok objects =>
      rw [level_of_readData hasks hdata] at h
      rw [objectsOf_of_readData hdata]
      exact ih hasks objects hdata branches ids' h

theorem branchesGrow_nil {typeName : String} {first : Option String} {ids : IdSource} :
    BranchesGrow g typeName [] first ids := by
  intro branches ids' h
  rw [Grower.branches] at h
  obtain ⟨rfl, rfl⟩ := by simpa using h
  exact ⟨trivial, trivial, [], .refl _, Or.inl ⟨rfl, rfl⟩⟩

/-- One object of a level: its node has a new id, and what it reads of its members comes between that id and the next
objects. -/
theorem branchesGrow_cons {typeName : String} {object : Dict Json} {rest : List (Dict Json)} {first : Option String}
    {ids ids' : IdSource} {id : String} (hid : ids.drawUnless first = (id, ids'))
    (hc : ContentGrows g typeName object.entries ids')
    (hrest : ∀ read ids'', g.content typeName object.entries ids' = (.ok read, ids'') →
      BranchesGrow g typeName rest none ids'') : BranchesGrow g typeName (object :: rest) first ids := by
  intro branches after h
  cases hcontent : g.content typeName object.entries ids' with
  | mk answer ids'' =>
    cases answer with
    | error e =>
      rw [Grower.branches, hid] at h
      simp [hcontent] at h
    | ok read =>
      cases hmore : g.branches typeName rest none ids'' with
      | mk answer last =>
        cases answer with
        | error e =>
          rw [Grower.branches, hid] at h
          simp [hcontent, hmore] at h
        | ok more =>
          rw [branches_cons hid hcontent hmore] at h
          simp only [Prod.mk.injEq, Except.ok.injEq] at h
          obtain ⟨rfl, rfl⟩ := h
          obtain ⟨hgrown, hof, hdraws⟩ := hc read ids'' hcontent
          obtain ⟨hothers, hothersOf, hgives⟩ := hrest read ids'' hcontent more last hmore
          obtain ⟨drawn, hdrawn, heq⟩ := IdSource.draws_drawUnless hid
          refine ⟨⟨⟨hgrown.isGrown_node object.nodup_names id, hgrown.twigs⟩, hothers⟩,
            ⟨⟨by rw [← hof.fields], hof.twigs⟩, hothersOf⟩, _,
            (hdrawn.append hdraws).append (IdSource.gives_none_iff.mp hgives), Or.inr ?_⟩
          rw [Branch.idsOf, Branch.ids, ← List.append_assoc, ← List.append_assoc, ← heq]
          rfl

theorem contentGrows_nil {typeName : String} {ids : IdSource} : ContentGrows g typeName [] ids := by
  intro content ids' h
  rw [Grower.content] at h
  obtain ⟨rfl, rfl⟩ := by simpa using h
  exact ⟨⟨List.Sublist.slnil, fun _ h => absurd h List.not_mem_nil, trivial⟩, ⟨rfl, trivial⟩, .refl _⟩

/-- A reserved name is refused. -/
theorem contentGrows_reserved {typeName : String} {field : String} {j : Json} {rest : List (String × Json)}
    {ids : IdSource} (hreserved : Attribute.isReserved field = true) :
    ContentGrows g typeName ((field, j) :: rest) ids := by
  intro content ids' h
  rw [Grower.content, if_pos hreserved] at h
  simp at h

/-- A member that holds a value is read as a field, or passed over. -/
theorem contentGrows_field {typeName : String} {field : String} {j : Json} {rest : List (String × Json)}
    {ids : IdSource} (hfree : ¬ Attribute.isReserved field = true) (hside : g.schema.side? typeName field = none)
    (hrest : ContentGrows g typeName rest ids) : ContentGrows g typeName ((field, j) :: rest) ids := by
  intro content ids' h
  rw [Grower.content, if_neg hfree, hside] at h
  dsimp only at h
  cases hmore : g.content typeName rest ids with
  | mk answer last =>
    rw [hmore] at h
    cases answer with
    | error e => simp at h
    | ok more =>
      obtain ⟨hgrown, hof, hdraws⟩ := hrest more last hmore
      have hnested : nestedObjects g.schema typeName ((field, j) :: rest) = nestedObjects g.schema typeName rest :=
        nestedObjects_cons_plain hside j
      dsimp only at h
      split at h
      next v hv =>
        simp only [Prod.mk.injEq, Except.ok.injEq] at h
        obtain ⟨rfl, rfl⟩ := h
        refine ⟨⟨hgrown.names.cons_cons field, fun name hname => ?_, hgrown.twigs⟩, ⟨?_, hnested ▸ hof.twigs⟩, hdraws⟩
        · rcases List.mem_cons.mp hname with rfl | hname
          · exact ⟨Bool.eq_false_iff.mpr hfree, hside⟩
          · exact hgrown.free name hname
        · rw [ownFields_cons_plain hside, hv, hof.fields]
          rfl
      next hv =>
        simp only [Prod.mk.injEq, Except.ok.injEq] at h
        obtain ⟨rfl, rfl⟩ := h
        refine ⟨⟨hgrown.names.cons field, hgrown.free, hgrown.twigs⟩, ⟨?_, hnested ▸ hof.twigs⟩, hdraws⟩
        rw [ownFields_cons_plain hside, hv, hof.fields]
        rfl

/-- An edge field that holds null is passed over. -/
theorem contentGrows_null {typeName : String} {field : String} {rest : List (String × Json)} {ids : IdSource}
    {side : EdgeSide} (hfree : ¬ Attribute.isReserved field = true) (hside : g.schema.side? typeName field = some side)
    (hrest : ContentGrows g typeName rest ids) : ContentGrows g typeName ((field, .null) :: rest) ids := by
  intro content ids' h
  rw [Grower.content, if_neg hfree, hside] at h
  obtain ⟨hgrown, hof, hdraws⟩ := hrest content ids' h
  refine ⟨⟨hgrown.names.cons field, hgrown.free, hgrown.twigs⟩, ⟨?_, ?_⟩, hdraws⟩
  · rw [ownFields_cons_side hside, hof.fields]
  · rw [nestedObjects_cons_null hside]
    exact hof.twigs

/-- An edge field that holds an object is read as a twig, whose ids come before those of the members behind it. -/
theorem contentGrows_twig {typeName : String} {field : String} {nested rest : List (String × Json)} {ids : IdSource}
    {side : EdgeSide} (hfree : ¬ Attribute.isReserved field = true) (hside : g.schema.side? typeName field = some side)
    (hnested : LevelGrows g side.target ((Json.object nested).get? "data") ((Json.object nested).get? "connections")
      none ids)
    (hrest : ∀ children ids', g.level side.target ((Json.object nested).get? "data")
      ((Json.object nested).get? "connections") none ids = (.ok children, ids') →
        ¬ (side.cardinality = .one ∧ children.length > 1) → ContentGrows g typeName rest ids') :
    ContentGrows g typeName ((field, .object nested) :: rest) ids := by
  intro content after h
  rw [Grower.content, if_neg hfree, hside] at h
  dsimp only at h
  split at h
  · simp at h
  next children ids' hlevel =>
    split at h
    · simp at h
    next hfew =>
      cases hmore : g.content typeName rest ids' with
      | mk answer last =>
        rw [hmore] at h
        cases answer with
        | error e => simp at h
        | ok more =>
          simp only [Prod.mk.injEq, Except.ok.injEq] at h
          obtain ⟨rfl, rfl⟩ := h
          obtain ⟨hgrown, hof, hdraws⟩ := hrest children ids' hlevel hfew more last hmore
          obtain ⟨hchildren, hchildrenOf, hgives⟩ := hnested children ids' hlevel
          refine ⟨⟨hgrown.names.cons field, hgrown.free, ⟨⟨field, hside⟩, hchildren, hgrown.twigs⟩⟩, ⟨?_, ?_⟩,
            (IdSource.gives_none_iff.mp hgives).append hdraws⟩
          · rw [ownFields_cons_side hside, hof.fields]
          · rw [nestedObjects_cons_object hside]
            exact ⟨rfl, hchildrenOf, hof.twigs⟩

/-- An edge field that holds neither an object nor null is refused. -/
theorem contentGrows_other {typeName : String} {field : String} {j : Json} {rest : List (String × Json)}
    {ids : IdSource} {side : EdgeSide} (hfree : ¬ Attribute.isReserved field = true)
    (hside : g.schema.side? typeName field = some side) (hnull : j = .null → False)
    (hobject : ∀ nested, j = .object nested → False) : ContentGrows g typeName ((field, j) :: rest) ids := by
  intro content ids' h
  rw [Grower.content, if_neg hfree, hside] at h
  simp at h

/-- Whatever is grown is well made, and its ids are those that were drawn for it. -/
theorem grown (g : Grower) :
    (∀ typeName data connections first ids, LevelGrows g typeName data connections first ids) ∧
      (∀ typeName objects first ids, BranchesGrow g typeName objects first ids) ∧
      ∀ typeName members ids, ContentGrows g typeName members ids :=
  growth_induct g levelGrows branchesGrow_nil branchesGrow_cons contentGrows_nil contentGrows_reserved
    contentGrows_field contentGrows_null contentGrows_twig contentGrows_other

/-- The branches of a level are well made and those of its objects, and their ids are those that were given and drawn.
-/
theorem level_eq_tree {typeName : String} {data connections : Option Json} {first : Option String} {ids ids' : IdSource}
    {branches : List Branch} (h : g.level typeName data connections first ids = (.ok branches, ids')) :
    Branch.AreGrown g typeName branches ∧ Branch.AreOf g typeName (objectsOf data) branches ∧
    ids.Gives first (Branch.idsOf branches) ids' :=
  (grown g).1 typeName data connections first ids branches ids' h

/-- An expansion is that of the branches of its topmost level. -/
theorem level_of_expand {typeName : String} {data connections : Option Json} {first : Option String}
    {ids ids' : IdSource} {expansion : Expansion}
    (h : g.expand typeName data connections first ids = (.ok expansion, ids')) :
    ∃ branches, g.level typeName data connections first ids = (.ok branches, ids') ∧
      expansion = .ofBranches branches := by
  rw [expand] at h
  cases hlevel : g.level typeName data connections first ids with
  | mk answer last =>
    rw [hlevel] at h
    cases answer with
    | error e => simp at h
    | ok branches =>
      simp only [Prod.mk.injEq, Except.ok.injEq] at h
      obtain ⟨rfl, rfl⟩ := h
      exact ⟨branches, rfl, rfl⟩

/-- The branches of an expansion are well made and those of the objects of the payload, and their ids are those that
were given and drawn. -/
theorem expand_eq_tree {typeName : String} {data connections : Option Json} {first : Option String}
    {ids ids' : IdSource} {expansion : Expansion}
    (h : g.expand typeName data connections first ids = (.ok expansion, ids')) :
    ∃ branches, expansion = .ofBranches branches ∧ Branch.AreGrown g typeName branches ∧
      Branch.AreOf g typeName (objectsOf data) branches ∧ ids.Gives first (Branch.idsOf branches) ids' := by
  obtain ⟨branches, hlevel, hexpansion⟩ := level_of_expand h
  exact ⟨branches, hexpansion, level_eq_tree hlevel⟩

/-- The branches of an expansion are well made, and their ids are those that were drawn, where the first one is not
given. -/
theorem expand_eq_ok {typeName : String} {data connections : Option Json} {first : Option String} {ids ids' : IdSource}
    {expansion : Expansion} (h : g.expand typeName data connections first ids = (.ok expansion, ids')) :
    ∃ branches, expansion = .ofBranches branches ∧ Branch.AreGrown g typeName branches ∧
      (first = none → ids.drawnSince ids' = Branch.idsOf branches) := by
  obtain ⟨branches, rfl, hgrown, -, hgives⟩ := expand_eq_tree h
  refine ⟨branches, rfl, hgrown, ?_⟩
  rintro rfl
  exact (IdSource.gives_none_iff.mp hgives).drawnSince_eq

end Grower

end PropertyGraph
