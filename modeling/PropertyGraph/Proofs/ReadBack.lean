import Mathlib.Data.List.Forall2
import PropertyGraph.Proofs.Hydration
import PropertyGraph.Proofs.Reachable
import PropertyGraph.Proofs.Reducing
import PropertyGraph.Proofs.SettingsRules
import PropertyGraph.Proofs.Writing

/-!
# A create can be read back

To create answers with what is put together from the records of the payload, to get with what is put together from the
rows of the table. Where the ids that were drawn are new, the rows at the first node are exactly its own, so that both
answers have the same fields in the same order, and only the neighbors under the edge fields change their order: they
are read back in the order of their ids (`Engine.create_is_read_back`).
-/

namespace PropertyGraph

/-! ## Two answers that agree -/

/-- Neighbors as what stands under an edge field. -/
def EdgeItem.listed (items : List EdgeItem) : Value := .node [("items", .list (items.map EdgeItem.toValue))]

/-- Whether a field is read back as it was written: as it is, or, where it leads over a relationship, with the same
neighbors in the order of their ids. -/
def Schema.ReadsBack (schema : Schema) (typeName : String) (written read : String × Value) : Prop :=
  written.1 = read.1 ∧
    match schema.side? typeName written.1 with
    | none => written.2 = read.2
    | some _ => ∃ items sorted : List EdgeItem, written.2 = EdgeItem.listed items ∧ read.2 = EdgeItem.listed sorted ∧
      sorted.Perm items ∧ sorted.Pairwise (·.id < ·.id)

/-- Fields that agree one by one still do after one more is written to both. -/
theorem forall₂_insert {R : String × Value → String × Value → Prop} (hnames : ∀ a b, R a b → a.1 = b.1)
    {fields others : Fields} (h : List.Forall₂ R fields others) {name : String} {content other : Value}
    (hnew : R (name, content) (name, other)) :
    List.Forall₂ R (Assoc.insert name content fields) (Assoc.insert name other others) := by
  induction h with
  | nil => exact .cons hnew .nil
  | @cons a b rest rest' hab hrest ih =>
    obtain ⟨first, old⟩ := a
    obtain ⟨first', old'⟩ := b
    obtain rfl : first = first' := hnames _ _ hab
    rw [Assoc.insert, Assoc.insert]
    by_cases hname : first = name
    · rw [if_pos hname, if_pos hname]
      exact .cons hnew hrest
    · rw [if_neg hname, if_neg hname]
      exact .cons hab ih

/-- Fields that agree one by one still do after the fields of several sides are written to both. -/
theorem forall₂_foldl_insert {R : String × Value → String × Value → Prop} (hnames : ∀ a b, R a b → a.1 = b.1)
    {sides : List EdgeSide} {content other : EdgeSide → Value}
    (hnew : ∀ side ∈ sides, R (side.owner.field, content side) (side.owner.field, other side)) {fields others : Fields}
    (h : List.Forall₂ R fields others) :
    List.Forall₂ R (sides.foldl (fun out side => Assoc.insert side.owner.field (content side) out) fields)
      (sides.foldl (fun out side => Assoc.insert side.owner.field (other side) out) others) := by
  induction sides generalizing fields others with
  | nil => exact h
  | cons side rest ih =>
    exact ih (fun other ho => hnew other (List.mem_cons_of_mem _ ho))
      (forall₂_insert hnames h (hnew side (List.mem_cons_self ..)))

/-- What a caller sees of a node: its id, its stamp, and its fields. -/
theorem Node.toOutput_eq {n : Node} (h : n.fields.AreFree) :
    n.toOutput = [(Attribute.id, .string n.id), (Attribute.createdAt, .string n.stamp.createdAt),
      (Attribute.updatedAt, .string n.stamp.updatedAt), (Attribute.createdBy, .string n.stamp.createdBy)] ++
        n.fields := by
  have hheader : n.stamp.write [(Attribute.id, .string n.id)] = [(Attribute.id, .string n.id),
      (Attribute.createdAt, .string n.stamp.createdAt), (Attribute.updatedAt, .string n.stamp.updatedAt),
      (Attribute.createdBy, .string n.stamp.createdBy)] := rfl
  rw [Node.toOutput, hheader]
  refine writeFields_eq_append h.1 ?_
  intro name hname hmem
  have hfree := h.2 name hname
  simp only [Assoc.names, List.map_cons, List.map_nil, List.mem_cons, List.not_mem_nil, or_false] at hmem
  rcases hmem with rfl | rfl | rfl | rfl <;> exact absurd hfree (by decide)

/-- No field of a node that grew leads over a relationship. -/
theorem Node.IsGrown.side?_eq_none {g : Grower} {typeName : String} {n : Node} (h : n.IsGrown g typeName)
    (hs : g.schema.IsDistinct) : ∀ field ∈ n.toOutput, g.schema.side? typeName field.1 = none := by
  have hreserved : ∀ name, Attribute.isReserved name = true → g.schema.side? typeName name = none := by
    intro name hname
    rw [← Option.not_isSome_iff_eq_none]
    intro hsome
    obtain ⟨side, hside⟩ := Option.isSome_iff_exists.mp hsome
    obtain ⟨hmem, howner⟩ := Schema.mem_sidesOf_of_side? hside
    have hfree := hs.free side (Schema.mem_sidesOf.mp hmem).1
    rw [howner] at hfree
    exact Bool.false_ne_true (hfree.symm.trans hname)
  have hown : ∀ name ∈ [Attribute.id, Attribute.createdAt, Attribute.updatedAt, Attribute.createdBy],
      Attribute.isReserved name = true := by
    decide
  intro field hfield
  rw [n.toOutput_eq h.free, List.mem_append] at hfield
  rcases hfield with hfield | hfield
  · exact hreserved _ (hown _ (List.mem_map_of_mem hfield))
  · exact h.plain _ (List.mem_map_of_mem hfield)

/-- Two nodes that are put together agree where they are one node and the neighbors under each edge field agree. -/
theorem reduce_agrees {g : Grower} {typeName : String} {n : Node} (hn : n.IsGrown g typeName)
    (hs : g.schema.IsDistinct) {now later : Int64} {records others : List Record}
    (hroot : findRoot now n.id records = some n) (hroot' : findRoot later n.id others = some n)
    (hitems : ∀ side ∈ g.schema.sidesOf typeName,
      (edgeItems later n.id side others).Perm (edgeItems now n.id side records) ∧
      (edgeItems later n.id side others).Pairwise (·.id < ·.id)) :
    ∃ out back, reduce g.schema now n.id records = some out ∧ reduce g.schema later n.id others = some back ∧
      List.Forall₂ (g.schema.ReadsBack typeName) out back := by
  refine ⟨_, _, by rw [reduce, hroot, Option.map_some], by rw [reduce, hroot', Option.map_some], ?_⟩
  rw [hn.typeName_eq]
  refine forall₂_foldl_insert (fun _ _ h => h.1) (fun side hside => ?_) ?_
  · obtain ⟨hmem, htype⟩ := Schema.mem_sidesOf.mp hside
    obtain ⟨hperm, hsorted⟩ := hitems side hside
    have hfield : g.schema.side? typeName side.owner.field = some side := by
      rw [← htype]
      exact hs.side?_of_mem hmem
    refine ⟨rfl, ?_⟩
    dsimp only
    rw [hfield]
    exact ⟨_, _, rfl, rfl, hperm, hsorted⟩
  · refine List.forall₂_same.mpr fun field hfield => ⟨rfl, ?_⟩
    rw [hn.side?_eq_none hs field hfield]

/-- The fields of several sides are written over no other field. -/
theorem lookup_foldl_insert {name : String} {sides : List EdgeSide} (h : ∀ side ∈ sides, name ≠ side.owner.field)
    (content : EdgeSide → Value) (fields : Fields) :
    (sides.foldl (fun out side => Assoc.insert side.owner.field (content side) out) fields).lookup name =
      fields.lookup name := by
  induction sides generalizing fields with
  | nil => rfl
  | cons side rest ih =>
    rw [List.foldl_cons, ih fun other ho => h other (List.mem_cons_of_mem _ ho)]
    exact Assoc.lookup_insert_of_ne (h side (List.mem_cons_self ..)) _ fields

/-- What is put together of a node that grew has its id. -/
theorem lookup_id_of_reduce {g : Grower} {typeName : String} {n : Node} (hn : n.IsGrown g typeName)
    (hs : g.schema.IsDistinct) {now : Int64} {records : List Record} (hroot : findRoot now n.id records = some n)
    {out : Fields} (h : reduce g.schema now n.id records = some out) :
    out.lookup Attribute.id = some (.string n.id) := by
  rw [reduce, hroot, Option.map_some, Option.some.injEq] at h
  have hsides : ∀ side ∈ g.schema.sidesOf n.typeName, Attribute.id ≠ side.owner.field := by
    intro side hside hfield
    have hfree := hs.free side (Schema.mem_sidesOf.mp hside).1
    rw [← hfield] at hfree
    exact absurd hfree (by decide)
  rw [← h, lookup_foldl_insert hsides, n.toOutput_eq hn.free]
  rfl

/-! ## What is in the table after a create -/

/-- Whether ids are distinct and without colons, and no row of a table mentions them. -/
structure Table.IsNewTo (t : Table) (ids : List String) : Prop where
  nodup : ids.Nodup
  colonless : ∀ id ∈ ids, isColonless id
  unmentioned : ∀ id ∈ ids, ∀ row ∈ t.rows, row.key.id ≠ id ∧ row.attributes.string? Attribute.edge ≠ some id

/-- The first of the topmost nodes has grown, is one of the records, and has one of the ids. -/
theorem Branch.node_isGrown {g : Grower} {typeName : String} {branch : Branch} {rest : List Branch}
    (h : Branch.AreGrown g typeName (branch :: rest)) : branch.node.IsGrown g typeName ∧
      .node branch.node ∈ Branch.recordsOf (branch :: rest) ∧ branch.node.id ∈ Branch.idsOf (branch :: rest) := by
  obtain ⟨node, twigs⟩ := branch
  refine ⟨h.1.1, ?_, ?_⟩
  · rw [Branch.recordsOf, Branch.records]
    exact List.mem_append_left _ (List.mem_append_right _ (List.mem_singleton.mpr rfl))
  · rw [Branch.idsOf, Branch.ids]
    exact List.mem_append_left _ (List.mem_cons_self ..)

theorem EdgeSide.end_of_near {side : EdgeSide} {e : Edge} {root : String} (h : side.near e = root) :
    e.id = root ∨ e.neighbor = root := by
  rw [near] at h
  split at h
  · exact Or.inl h
  · exact Or.inr h

/-- No edge of a payload comes twice. -/
theorem Branch.nodup_edgesOf {g : Grower} {typeName : String} {branches : List Branch}
    (h : Branch.AreGrown g typeName branches) (hnodup : (Branch.idsOf branches).Nodup)
    (hcolonless : ∀ id ∈ Branch.idsOf branches, isColonless id) : (edgesOf (Branch.recordsOf branches)).Nodup := by
  have hseparable := areSeparable_of_forall fun id hid => (hcolonless id hid).isSeparable
  refine List.Nodup.filterMap (fun r r' e he he' => ?_) (List.Nodup.of_map _ (Branch.nodup_keys h hnodup hseparable))
  cases r with
  | node n => exact absurd he (by simp [Record.edge?])
  | edge f =>
    cases r' with
    | node n => exact absurd he' (by simp [Record.edge?])
    | edge f' => rw [Option.some.inj he, Option.some.inj he']

namespace Table

variable {t t' : Table} {g : Grower} {typeName : String} {branches : List Branch}

/-- An edge at an id that is new to a table is there exactly when it is one of the records. -/
theorem HasAlso.exists_edge_iff (h : t'.HasAlso t (Branch.recordsOf branches))
    (hgrown : Branch.AreGrown g typeName branches) (hnew : t.IsNewTo (Branch.idsOf branches)) {id : String}
    (hid : id ∈ Branch.idsOf branches) {e : Edge} (hend : e.id = id ∨ e.neighbor = id) :
    (∃ row ∈ t'.rows, Record.ofAttributes row.attributes = .ok (.edge e)) ↔
    e ∈ edgesOf (Branch.recordsOf branches) := by
  have hstorable := Branch.isStorable_of_areGrown hgrown
  constructor
  · rintro ⟨row, hrow, hedge⟩
    rcases (h row).mp hrow with hold | ⟨r, hmem, hattributes⟩
    · obtain ⟨hkey, hneighbor⟩ := hnew.unmentioned id hid row hold
      rw [Row.key_of_edge hedge] at hkey
      rw [Row.neighbor_of_edge hedge] at hneighbor
      rcases hend with hend | hend
      · exact absurd hend hkey
      · exact absurd (congrArg some hend) hneighbor
    · rw [hattributes, r.ofAttributes_toAttributes (hstorable r hmem), Except.ok.injEq] at hedge
      exact mem_edgesOf.mpr (hedge ▸ hmem)
  · intro he
    have hmem := mem_edgesOf.mp he
    obtain ⟨row, hrow, -, hedge⟩ := h.exists_row hmem (hstorable _ hmem)
    exact ⟨row, hrow, hedge⟩

/-- A node that grew is found in the table under its id. -/
theorem HasAlso.liveNode?_eq {records : List Record} (h : t'.HasAlso t records) {n : Node} (hmem : .node n ∈ records)
    (hn : n.IsGrown g typeName) (now : Int64) : t'.liveNode? now n.id = some n := by
  obtain ⟨row, hrow, hkey, hnode⟩ := h.exists_row hmem hn.free
  exact liveNode?_of_mem hrow hkey hnode (hn.isOver_ttl now)

end Table

/-- In a store without faults the records of a payload with new ids are all put, and the table has them also. -/
theorem putNew_areGrown {s : Store} {table : String} {g : Grower} {typeName : String} {branches : List Branch}
    (hs : s.IsFaultless) (hgrown : Branch.AreGrown g typeName branches)
    (hnew : (s.tableOf table).IsNewTo (Branch.idsOf branches)) :
    ∃ s', putNew s table (Branch.recordsOf branches) = ([], s') ∧ s'.IsFaultless ∧ s'.indexName = s.indexName ∧
      (s'.tableOf table).HasAlso (s.tableOf table) (Branch.recordsOf branches) := by
  have hkeys :=
    Branch.nodup_keys hgrown hnew.nodup (areSeparable_of_forall fun id hid => (hnew.colonless id hid).isSeparable)
  refine putNew_eq hs (Branch.isStorable_of_areGrown hgrown) hkeys ?_
  intro record hrecord row hrow hkey
  have hid := Branch.id_mem_of_mem_recordsOf hgrown record hrecord
  exact (hnew.unmentioned _ hid row hrow).1 (congrArg Key.id hkey)

/-! ## What is read at a node -/

namespace Table

/-- The records of which a node is put together when it is read: the edges along the sides of its type, and the node. -/
def recordsAt (t : Table) (schema : Schema) (now : Int64) (n : Node) : List Record :=
  ((schema.sidesOf n.typeName).flatMap fun side => t.edgesAlong now n.id side none).map Record.edge ++ [.node n]

variable {t : Table} {schema : Schema} {now : Int64} {n : Node}

/-- Of what is read at a live node nothing has expired. -/
theorem isExpired_of_mem_recordsAt (hn : isOver n.ttl now = false) :
    ∀ r ∈ t.recordsAt schema now n, r.isExpired now = false := by
  intro r hr
  rcases List.mem_append.mp hr with hr | hr
  · obtain ⟨e, he, rfl⟩ := List.mem_map.mp hr
    obtain ⟨side, -, he⟩ := List.mem_flatMap.mp he
    obtain ⟨-, -, -, hover, -⟩ := Table.mem_edgesAlong.mp he
    exact hover
  · rw [List.mem_singleton.mp hr]
    exact hn

/-- The edges that are read at a node. -/
theorem edgesOf_recordsAt (t : Table) (schema : Schema) (now : Int64) (n : Node) :
    edgesOf (t.recordsAt schema now n) = (schema.sidesOf n.typeName).flatMap fun side =>
      t.edgesAlong now n.id side none := by
  rw [recordsAt, edgesOf_append, edgesOf_map_edge (fun e => e), List.map_id']
  exact List.append_nil _

/-- The node is the only one that is read at it. -/
theorem nodesOf_recordsAt (t : Table) (schema : Schema) (now : Int64) (n : Node) :
    nodesOf (t.recordsAt schema now n) = [n] := by
  rw [recordsAt, nodesOf_append, nodesOf_map_edge (fun e => e)]
  rfl

/-- The live node is found in what is read at it. -/
theorem findRoot_recordsAt (hn : isOver n.ttl now = false) : findRoot now n.id (t.recordsAt schema now n) = some n := by
  refine findRoot_eq (isExpired_of_mem_recordsAt hn) ?_ ?_
  · rw [nodesOf_recordsAt]
    exact List.pairwise_singleton ..
  · rw [nodesOf_recordsAt]
    exact List.mem_singleton.mpr rfl

end Table

namespace Table.HasAlso

variable {t t' : Table} {g : Grower} {typeName : String} {branches : List Branch} {root : String}

/-- The edges at an id that is new to a table are those of the records that have grown; read along a side they are as
many as are written along it, in the order of the ids to which they lead. -/
theorem perm_edgesAlong (h : t'.HasAlso t (Branch.recordsOf branches)) (hgrown : Branch.AreGrown g typeName branches)
    (hnew : t.IsNewTo (Branch.idsOf branches)) (hroot : root ∈ Branch.idsOf branches) (side : EdgeSide) (now : Int64) :
    ((t'.edgesAlong now root side none).filter fun e => e.name == side.edgeName).Perm
      ((edgesOf (Branch.recordsOf branches)).filter (side.isFrom root)) := by
  have hfar := t'.far_ascending now root side (List.Sublist.refl (t'.along root side none))
  have hread : ((t'.edgesAlong now root side none).filter fun e => e.name == side.edgeName).Nodup :=
    List.Nodup.of_map side.far (hfar.imp fun {_ _} hlt => Std.ne_of_lt hlt)
  have hwritten := (Branch.nodup_edgesOf hgrown hnew.nodup hnew.colonless).filter (side.isFrom root)
  refine (List.perm_ext_iff_of_nodup hread hwritten).mpr ?_
  intro e
  rw [List.mem_filter, List.mem_filter, EdgeSide.isFrom, Bool.and_eq_true, beq_iff_eq, beq_iff_eq]
  constructor
  · rintro ⟨he, hname⟩
    obtain ⟨row, hrow, hedge, -, hnear⟩ := (Table.mem_edgesAlong_iff hname).mp he
    exact ⟨(h.exists_edge_iff hgrown hnew hroot (EdgeSide.end_of_near hnear)).mp ⟨row, hrow, hedge⟩, hname, hnear⟩
  · rintro ⟨he, hname, hnear⟩
    obtain ⟨row, hrow, hedge⟩ := (h.exists_edge_iff hgrown hnew hroot (EdgeSide.end_of_near hnear)).mpr he
    have hlive : isOver e.ttl now = false := Branch.isExpired_of_areGrown hgrown now _ (mem_edgesOf.mp he)
    exact ⟨(Table.mem_edgesAlong_iff hname).mpr ⟨row, hrow, hedge, hlive, hnear⟩, hname⟩

/-- What is read at an id that is new to a table has an edge neither from the id to itself nor to an id with a colon. -/
theorem ends_of_mem_edgesAlong (h : t'.HasAlso t (Branch.recordsOf branches))
    (hgrown : Branch.AreGrown g typeName branches) (hnew : t.IsNewTo (Branch.idsOf branches))
    (hroot : root ∈ Branch.idsOf branches) {now : Int64} {side : EdgeSide} {e : Edge}
    (he : e ∈ t'.edgesAlong now root side none) : e.id ≠ e.neighbor ∧ isColonless e.neighbor := by
  obtain ⟨row, hrow, hedge, -, hnear, -⟩ := Table.mem_edgesAlong.mp he
  have hmem := (h.exists_edge_iff hgrown hnew hroot (EdgeSide.end_of_near hnear)).mp ⟨row, hrow, hedge⟩
  exact ⟨Branch.ends_ne_of_edge hgrown hnew.nodup hmem, hnew.colonless _ (Branch.ends_mem_of_edge hgrown hmem).2⟩

/-- What stands under an edge field of a new node when it is read has the neighbors that were written, in the order of
their ids. -/
theorem items_agree (h : t'.HasAlso t (Branch.recordsOf branches)) (hgrown : Branch.AreGrown g typeName branches)
    (hnew : t.IsNewTo (Branch.idsOf branches)) (hs : g.schema.IsDistinct) {n : Node} (hn : n.IsGrown g typeName)
    (hroot : n.id ∈ Branch.idsOf branches) (now later : Int64) {side : EdgeSide}
    (hside : side ∈ g.schema.sidesOf typeName) :
    (edgeItems later n.id side (t'.recordsAt g.schema later n)).Perm
      (edgeItems now n.id side (Branch.recordsOf branches)) ∧
      (edgeItems later n.id side (t'.recordsAt g.schema later n)).Pairwise (·.id < ·.id) := by
  have hends := fun b e (he : e ∈ t'.edgesAlong later n.id b none) => h.ends_of_mem_edgesAlong hgrown hnew hroot he
  rw [edgeItems_eq (Table.isExpired_of_mem_recordsAt (hn.isOver_ttl later)),
    edgeItems_eq (Branch.isExpired_of_areGrown hgrown now),
    Table.edgesOf_recordsAt, hn.typeName_eq, hs.filter_edgesAlong hside hends]
  refine ⟨(h.perm_edgesAlong hgrown hnew hroot side later).map _, ?_⟩
  have hfar := t'.far_ascending later n.id side (List.Sublist.refl (t'.along n.id side none))
  exact List.pairwise_map.mpr (List.pairwise_map.mp hfar)

end Table.HasAlso

/-! ## Getting a node -/

namespace Engine

variable {e : Engine} {s : Store} {id : String}

/-- What is read along sides, in a readable table: all their edges, and no errors. -/
theorem edgesAlong_eq (id : String) (now : Int64) (hindex : e.settings.store.edgeIndexName = s.indexName)
    (hr : (s.tableOf e.table).IsReadable) (sides : List EdgeSide) :
    ∃ s', e.edgesAlong s now id sides =
      ((sides.flatMap fun side => (s.tableOf e.table).edgesAlong now id side none).map Record.edge, [], s') := by
  induction sides generalizing s with
  | nil => exact ⟨s, rfl⟩
  | cons side rest ih =>
    obtain ⟨s', hall, calls, rfl⟩ := EdgeReader.all_eq (r := e.reader now) id side hindex hr
      (Settings.ranges_of_validate e.valid).2 EdgeReader.startOf_none
    obtain ⟨s'', hrest⟩ := @ih { s with queryCalls := calls } hindex hr
    refine ⟨s'', ?_⟩
    rw [edgesAlong, hall]
    dsimp only
    rw [hrest, List.flatMap_cons, List.map_append]
    rfl

/-- What to get a node answers, in a readable table in which it is live. -/
theorem get_eq {now : Int64} {n : Node} (hindex : e.settings.store.edgeIndexName = s.indexName)
    (hr : (s.tableOf e.table).IsReadable) (hfault : s.throttledCalls = 0)
    (hn : (s.tableOf e.table).liveNode? now id = some n) :
    ∃ s', e.get s now id = (.ok (reduce e.schema now id ((s.tableOf e.table).recordsAt e.schema now n)), s') := by
  obtain ⟨hs, hmost⟩ := (Settings.ranges_of_validate e.valid).1
  obtain rfl := Table.id_of_liveNode? hn
  obtain ⟨s', hedges⟩ := edgesAlong_eq n.id now hindex hr (e.schema.sidesOf n.typeName)
  have hlook : e.look s now [n.id] = (⟨[n], []⟩, s) := by
    rw [look, hydrate_eq now [n.id] hr hfault hs hmost, List.filterMap_cons, hn]
    rfl
  refine ⟨s', ?_⟩
  rw [get, hlook]
  dsimp only
  rw [hedges]
  rfl

/-- To create answers with a node only where the payload has grown to one, and then with what is put together from its
records. -/
theorem create_eq_some {ids : IdSource} {now : Instant} {typeName : String} {r : CreateRequest} {out : Fields}
    (hout : (e.create s ids now typeName r).1.data = some out) :
    ∃ branch rest ids', (e.grower now).expand typeName r.data r.connections none ids =
      (.ok (.ofBranches (branch :: rest)), ids') ∧
      Branch.AreGrown (e.grower now) typeName (branch :: rest) ∧ ids.drawnSince ids' = Branch.idsOf (branch :: rest) ∧
      reduce e.schema now.seconds branch.node.id (Branch.recordsOf (branch :: rest)) = some out ∧
      e.create s ids now typeName r =
        (.withErrors (some out) (putNew s e.table (Branch.recordsOf (branch :: rest))).1,
          (putNew s e.table (Branch.recordsOf (branch :: rest))).2, ids') := by
  cases hexpand : (e.grower now).expand typeName r.data r.connections none ids with
  | mk answer ids' =>
    rw [create, hexpand] at hout
    cases answer with
    | error fault => exact absurd hout.symm (Option.some_ne_none _)
    | ok expansion =>
      obtain ⟨branches, rfl, hgrown, hids⟩ := Grower.expand_eq_ok hexpand
      cases branches with
      | nil => exact absurd hout.symm (Option.some_ne_none _)
      | cons branch rest =>
        have hreduce : reduce e.schema now.seconds branch.node.id (Branch.recordsOf (branch :: rest)) = some out := hout
        refine ⟨branch, rest, ids', rfl, hgrown, hids rfl, hreduce, ?_⟩
        rw [create, hexpand, ← hreduce]
        rfl

/-- A create can be read back. In a store without faults whose table is readable, and where the ids that are drawn are
distinct, without colons and new to the table, a create that answers with a node reports no error, and getting that
node right after reports none either and gives the same fields in the same order, but for the neighbors under each edge
field, which are in the order of their ids. -/
theorem create_is_read_back {ids : IdSource} {now : Instant} {typeName : String} {r : CreateRequest} {out : Fields}
    (hs : e.schema.IsDistinct) (hindex : e.settings.store.edgeIndexName = s.indexName) (hfaults : s.IsFaultless)
    (hr : (s.tableOf e.table).IsReadable)
    (hnew : (s.tableOf e.table).IsNewTo (ids.drawnSince (e.create s ids now typeName r).2.2))
    (hout : (e.create s ids now typeName r).1.data = some out) (later : Int64) :
    (e.create s ids now typeName r).1.errors = [] ∧
      ∃ root back s', out.lookup Attribute.id = some (.string root) ∧
        e.get (e.create s ids now typeName r).2.1 later root = (.ok (some back), s') ∧
        List.Forall₂ (e.schema.ReadsBack typeName) out back := by
  obtain ⟨branch, rest, ids', hexpand, hgrown, hdrawn, hreduce, hcreate⟩ := create_eq_some hout
  rw [hcreate] at hnew ⊢
  dsimp only at hnew ⊢
  rw [hdrawn] at hnew
  obtain ⟨hnode, hmem, hid⟩ := Branch.node_isGrown hgrown
  obtain ⟨s', hput, hfaultless, hindex', halso⟩ := putNew_areGrown hfaults hgrown hnew
  have hreadable := halso.isReadable hr (Branch.isStorable_of_areGrown hgrown)
  obtain ⟨s'', hget⟩ := get_eq (e := e) (hindex.trans hindex'.symm) hreadable hfaultless.throttled
    (halso.liveNode?_eq hmem hnode later)
  have hlive := Branch.isExpired_of_areGrown hgrown now.seconds
  have hnodes := (Branch.nodesOf_perm (branch :: rest)).nodup_iff.mpr hnew.nodup
  have hroot := findRoot_eq hlive hnodes (mem_nodesOf.mpr hmem)
  have hroot' : findRoot later branch.node.id ((s'.tableOf e.table).recordsAt e.schema later branch.node) =
      some branch.node :=
    Table.findRoot_recordsAt (hnode.isOver_ttl later)
  obtain ⟨written, back, hwritten, hback, hagree⟩ := reduce_agrees hnode hs hroot hroot' fun side hside =>
    halso.items_agree hgrown hnew hs hnode hid now.seconds later hside
  obtain rfl : written = out := Option.some.inj (hwritten.symm.trans hreduce)
  rw [hput]
  refine ⟨rfl, branch.node.id, back, s'', lookup_id_of_reduce hnode hs hroot hreduce, ?_, hagree⟩
  rw [hget]
  exact congrArg (fun read => (Response.ok read, s'')) hback

end Engine

namespace Sample

theorem users_isDistinct : users.schema.IsDistinct where
  fields := by decide
  edges := by decide
  beginnings := by decide
  free := by decide

/-- Created beside other users, the three new ones are read back, and those who are followed in the order of their ids.
-/
theorem newcomer_is_read_back :
    ∃ out, (users.create following (fresh 0) ⟨0, 0⟩ "User" newcomer).1.data = some out ∧
      out.lookup "follows" = some (EdgeItem.listed [⟨"hal", "eve", "follow"⟩, ⟨"gus", "eve", "follow"⟩]) ∧
      (users.create following (fresh 0) ⟨0, 0⟩ "User" newcomer).1.errors = [] ∧
      ∃ root back s', out.lookup Attribute.id = some (.string root) ∧
        users.get (users.create following (fresh 0) ⟨0, 0⟩ "User" newcomer).2.1 5 root = (.ok (some back), s') ∧
        List.Forall₂ (users.schema.ReadsBack "User") out back := by
  have hdrawn : (fresh 0).drawnSince (users.create following (fresh 0) ⟨0, 0⟩ "User" newcomer).2.2 =
      ["eve", "hal", "gus"] := by
    rw [Engine.create, expand_newcomer]
    rfl
  have hcolonless : ∀ id ∈ ["eve", "hal", "gus"], isColonless id := by
    unfold isColonless
    decide
  have hnew : (following.tableOf users.table).IsNewTo ["eve", "hal", "gus"] :=
    ⟨by decide, hcolonless, by decide +kernel⟩
  have hdata : ∃ out, (users.create following (fresh 0) ⟨0, 0⟩ "User" newcomer).1.data = some out ∧
      out.lookup "follows" = some (EdgeItem.listed [⟨"hal", "eve", "follow"⟩, ⟨"gus", "eve", "follow"⟩]) := by
    rw [Engine.create, expand_newcomer]
    exact ⟨_, rfl, rfl⟩
  obtain ⟨out, hout, hfollows⟩ := hdata
  have hfaultless : following.IsFaultless := ⟨rfl, rfl, rfl⟩
  exact ⟨out, hout, hfollows, Engine.create_is_read_back users_isDistinct rfl hfaultless
    (following_isReadable users.table) (hdrawn ▸ hnew) hout 5⟩

end Sample

end PropertyGraph
