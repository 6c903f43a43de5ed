import PropertyGraph.Row.Codec

/-!
# What a row stands for

A row is the row of an edge exactly where its attributes are those of the edge (`Record.ofAttributes_edge_iff`), and
likewise for a node (`Record.ofAttributes_node_iff`); the attributes in which a record is stored stand for that record,
as long as the fields of a node have distinct names that are none of the library's own attributes
(`Record.ofAttributes_of_isApart`). A record that a caller can bring about is of that kind, since reserved names are
refused as fields.
-/

namespace PropertyGraph

/-- Attributes that have names which are neither reserved nor repeated. -/
def Fields.AreFree (fields : Fields) : Prop :=
  (Assoc.names fields).Nodup ∧ ∀ name ∈ Assoc.names fields, Attribute.isReserved name = false

/-- Attributes that have names which are neither repeated nor among those that the library adds to a row. -/
def Fields.AreApart (fields : Fields) : Prop :=
  (Assoc.names fields).Nodup ∧ ∀ name ∈ Assoc.names fields, name ∉ Node.ownAttributes

/-- The attributes that the library adds are reserved. -/
theorem Node.isReserved_of_mem_ownAttributes {name : String} (h : name ∈ ownAttributes) :
    Attribute.isReserved name = true := by
  simp only [ownAttributes, List.mem_cons, List.not_mem_nil, or_false] at h
  rcases h with rfl | rfl | rfl | rfl | rfl | rfl | rfl | rfl <;> decide

theorem Fields.AreFree.areApart {fields : Fields} (h : fields.AreFree) : fields.AreApart := by
  refine ⟨h.1, fun name hname hown => ?_⟩
  exact Bool.false_ne_true ((h.2 name hname).symm.trans (Node.isReserved_of_mem_ownAttributes hown))

/-! ## Names of edges -/

/-- A text without an ending is what the ending is put behind. -/
theorem stripEnding?_eq_some_iff {ending text s : String} : stripEnding? ending text = some s ↔ text = s ++ ending := by
  unfold stripEnding?
  constructor
  · intro h
    split at h
    next hsuffix =>
      obtain ⟨front, hfront⟩ := List.isSuffixOf_iff_suffix.mp hsuffix
      rw [Option.some.injEq] at h
      subst h
      apply String.toList_inj.mp
      rw [String.toList_append, String.toList_ofList, ← hfront]
      simp
    · simp at h
  · rintro rfl
    have hsuffix : ending.toList.isSuffixOf (s ++ ending).toList = true := by
      rw [String.toList_append]
      exact List.isSuffixOf_iff_suffix.mpr (List.suffix_append ..)
    rw [if_pos hsuffix, Option.some.injEq, String.toList_append]
    simp

/-- The name of an edge is what stands before the two colons and the neighbor. -/
theorem Edge.nameOf_eq_ok_iff {id dataType neighbor name : String} :
    Edge.nameOf id dataType neighbor = .ok name ↔ dataType = name ++ sortSeparator ++ neighbor := by
  have hstrip : stripEnding? (sortSeparator ++ neighbor) dataType = some name ↔
      dataType = name ++ (sortSeparator ++ neighbor) :=
    stripEnding?_eq_some_iff
  rw [← String.append_assoc] at hstrip
  rw [← hstrip, Edge.nameOf]
  cases stripEnding? (sortSeparator ++ neighbor) dataType <;> simp

theorem Edge.sortKey_ne_nodeMarker (e : Edge) : e.sortKey ≠ nodeMarker := by
  intro h
  have hcolon : ':' ∈ e.sortKey.toList := by
    simp [Edge.sortKey, sortSeparator]
  rw [h] at hcolon
  revert hcolon
  decide

/-! ## Reading attributes -/

/-- An attribute that must be a text is read where it is one. -/
theorem requireString_eq_ok_iff {attributes : Fields} {name s : String} :
    requireString attributes name = .ok s ↔ attributes.string? name = some s := by
  unfold requireString Fields.string?
  cases attributes.lookup name with
  | none => simp
  | some v => cases v <;> simp [Value.string?]

namespace Record

/-- Attributes are those of an edge where they carry its key, its neighbor and its time to live, and the rest of them
is its own. -/
theorem ofAttributes_edge_iff {attributes : Fields} {e : Edge} :
    ofAttributes attributes = .ok (.edge e) ↔
      attributes.string? Attribute.id = some e.id ∧ attributes.string? Attribute.dataType = some e.sortKey ∧
        attributes.string? Attribute.edge = some e.neighbor ∧ readTtl attributes e.id = .ok e.ttl ∧
        (attributes.string? Attribute.namedType).getD "" = e.namedType ∧ Stamp.read attributes = e.stamp := by
  constructor
  · intro h
    simp only [ofAttributes, bind, Except.bind, pure, Except.pure] at h
    split at h
    · simp at h
    next id hid =>
      split at h
      · simp at h
      next dataType htype =>
        split at h
        · simp at h
        next ttl httl =>
          split at h
          · simp at h
          next hmarker =>
            split at h
            · simp at h
            next neighbor hneighbor =>
              split at h
              · simp at h
              next name hname =>
                simp only [Except.ok.injEq, Record.edge.injEq] at h
                subst h
                rw [requireString_eq_ok_iff] at hid htype hneighbor
                rw [Edge.nameOf_eq_ok_iff] at hname
                subst hname
                exact ⟨hid, htype, hneighbor, httl, rfl, rfl⟩
  · rintro ⟨hid, htype, hneighbor, httl, hnamed, hstamp⟩
    have hname : Edge.nameOf e.id e.sortKey e.neighbor = .ok e.name := Edge.nameOf_eq_ok_iff.mpr rfl
    simp only [ofAttributes, requireString_eq_ok_iff.mpr hid, requireString_eq_ok_iff.mpr htype, httl,
      requireString_eq_ok_iff.mpr hneighbor, hname, if_neg e.sortKey_ne_nodeMarker, hnamed, hstamp, bind,
        Except.bind, pure,
      Except.pure]

/-- Attributes are those of a node where they carry its key and its time to live, and the rest of them is its own. -/
theorem ofAttributes_node_iff {attributes : Fields} {n : Node} :
    ofAttributes attributes = .ok (.node n) ↔
      attributes.string? Attribute.id = some n.id ∧ attributes.string? Attribute.dataType = some nodeMarker ∧
        readTtl attributes n.id = .ok n.ttl ∧ (attributes.string? Attribute.namedType).getD "" = n.typeName ∧
        Stamp.read attributes = n.stamp ∧ Node.fieldsOf attributes = n.fields := by
  constructor
  · intro h
    simp only [ofAttributes, bind, Except.bind, pure, Except.pure] at h
    split at h
    · simp at h
    next id hid =>
      split at h
      · simp at h
      next dataType htype =>
        split at h
        · simp at h
        next ttl httl =>
          split at h
          next hmarker =>
            simp only [Except.ok.injEq, Record.node.injEq] at h
            subst h
            rw [requireString_eq_ok_iff] at hid htype
            exact ⟨hid, hmarker ▸ htype, httl, rfl, rfl, rfl⟩
          · split at h
            · simp at h
            · split at h <;> simp at h
  · rintro ⟨hid, htype, httl, hnamed, hstamp, hfields⟩
    simp only [ofAttributes, requireString_eq_ok_iff.mpr hid, requireString_eq_ok_iff.mpr htype, httl, if_true,
      hnamed, hstamp, hfields, bind, Except.bind, pure, Except.pure]

end Record

/-! ## Writing attributes -/

/-- Writing a name that is not there puts it at the end. -/
theorem Assoc.insert_of_not_mem {α : Type} {name : String} {content : α} {entries : Assoc α}
    (h : name ∉ names entries) : Assoc.insert name content entries = entries ++ [(name, content)] := by
  induction entries with
  | nil => rfl
  | cons entry rest ih =>
    obtain ⟨other, old⟩ := entry
    rw [names, List.map_cons, List.mem_cons, not_or] at h
    rw [Assoc.insert, if_neg (Ne.symm h.1), ih h.2, List.cons_append]

/-- Fields of new names are put behind the attributes, in their order. -/
theorem writeFields_eq_append {fields attributes : Fields} (hn : (Assoc.names fields).Nodup)
    (hd : ∀ name ∈ Assoc.names fields, name ∉ Assoc.names attributes) :
    writeFields fields attributes = attributes ++ fields := by
  induction fields generalizing attributes with
  | nil => exact (List.append_nil attributes).symm
  | cons field rest ih =>
    obtain ⟨name, content⟩ := field
    rw [Assoc.names, List.map_cons, List.nodup_cons] at hn
    have hnew : name ∉ Assoc.names attributes := hd name (List.mem_cons_self ..)
    have hrest : ∀ other ∈ Assoc.names rest, other ∉ Assoc.names (attributes ++ [(name, content)]) := by
      intro other hother hmem
      rw [Assoc.names, List.map_append, List.mem_append] at hmem
      rcases hmem with hmem | hmem
      · exact hd other (List.mem_cons_of_mem _ hother) hmem
      · rw [List.map_singleton, List.mem_singleton] at hmem
        exact hn.1 (hmem ▸ hother)
    have hstep : writeFields ((name, content) :: rest) attributes =
        writeFields rest (Assoc.insert name content attributes) := rfl
    rw [hstep, Assoc.insert_of_not_mem hnew, ih hn.2 hrest, List.append_assoc, List.singleton_append]

/-- The attributes that stand before the fields of a node. -/
def Node.header (n : Node) : Fields :=
  [(Attribute.id, .string n.id), (Attribute.dataType, .string nodeMarker), (Attribute.namedType, .string n.typeName),
    (Attribute.createdAt, .string n.stamp.createdAt), (Attribute.updatedAt, .string n.stamp.updatedAt),
    (Attribute.createdBy, .string n.stamp.createdBy)]

/-- The attribute that a time to live is written to, where there is one. -/
def ttlAttribute : Option Int64 → Fields
  | some t => [(Attribute.ttl, .int t)]
  | none => []

/-- The names before the fields of a node are among those that the library adds. -/
theorem Node.mem_ownAttributes_of_mem_header {n : Node} {name : String} (h : name ∈ Assoc.names n.header) :
    name ∈ ownAttributes := by
  simp only [Node.header, Assoc.names, List.map_cons, List.map_nil, List.mem_cons, List.not_mem_nil, or_false] at h
  rcases h with rfl | rfl | rfl | rfl | rfl | rfl <;> decide

/-- The attributes of the row of a node: those before the fields, the fields, and the time to live. -/
theorem Node.toAttributes_eq {n : Node} (h : n.fields.AreApart) :
    n.toAttributes = n.header ++ n.fields ++ ttlAttribute n.ttl := by
  have hheader : n.stamp.write [(Attribute.id, .string n.id), (Attribute.dataType, .string nodeMarker),
      (Attribute.namedType, .string n.typeName)] = n.header := rfl
  have hfields : writeFields n.fields n.header = n.header ++ n.fields := by
    refine writeFields_eq_append h.1 ?_
    intro name hname hmem
    exact h.2 name hname (mem_ownAttributes_of_mem_header hmem)
  rw [Node.toAttributes, hheader, hfields]
  cases n.ttl with
  | none => exact (List.append_nil _).symm
  | some t =>
    refine Assoc.insert_of_not_mem ?_
    intro hmem
    rw [Assoc.names, List.map_append, List.mem_append] at hmem
    rcases hmem with hmem | hmem
    · revert hmem
      simp only [Node.header, List.map_cons, List.map_nil]
      decide
    · exact h.2 _ hmem (by decide)

/-- The attributes of the row of an edge. -/
theorem Edge.toAttributes_eq (e : Edge) :
    e.toAttributes = [(Attribute.id, .string e.id), (Attribute.dataType, .string e.sortKey),
      (Attribute.namedType, .string e.namedType), (Attribute.edge, .string e.neighbor),
      (Attribute.createdAt, .string e.stamp.createdAt), (Attribute.updatedAt, .string e.stamp.updatedAt),
      (Attribute.createdBy, .string e.stamp.createdBy)] ++ ttlAttribute e.ttl := by
  rw [Edge.toAttributes]
  cases e.ttl <;> rfl

/-! ## Reading what was written -/

/-- A name that is not among the entries has nothing. -/
theorem Assoc.lookup_eq_none {α : Type} {name : String} {entries : Assoc α} (h : name ∉ names entries) :
    entries.lookup name = none := by
  rw [List.lookup_eq_none_iff]
  intro entry hentry
  have hne : entry.1 ≠ name := fun heq => h (heq ▸ List.mem_map_of_mem hentry)
  exact bne_iff_ne.mpr hne.symm

theorem Fields.AreApart.lookup_own {fields : Fields} (h : fields.AreApart) {name : String}
    (ho : name ∈ Node.ownAttributes) :
    fields.lookup name = none := Assoc.lookup_eq_none fun hmem => h.2 name hmem ho

/-- What the row of a node has under an attribute that the library adds. -/
theorem Node.lookup_toAttributes {n : Node} (h : n.fields.AreApart) {name : String} (ho : name ∈ ownAttributes) :
    n.toAttributes.lookup name = (n.header.lookup name).or ((ttlAttribute n.ttl).lookup name) := by
  rw [n.toAttributes_eq h, List.lookup_append, List.lookup_append, h.lookup_own ho, Option.or_none]

/-- Attributes that are apart from those of the library are all of them fields. -/
theorem Fields.AreApart.fieldsOf_eq {fields : Fields} (h : fields.AreApart) : Node.fieldsOf fields = fields := by
  refine List.filter_eq_self.mpr ?_
  intro field hfield
  simp only [Bool.not_eq_true', List.contains_eq_mem, decide_eq_false_iff_not]
  exact h.2 field.1 (List.mem_map_of_mem hfield)

/-- The fields of a node are read back from its row. -/
theorem Node.fieldsOf_toAttributes {n : Node} (h : n.fields.AreApart) : fieldsOf n.toAttributes = n.fields := by
  have hheader : fieldsOf n.header = [] := rfl
  have httl : fieldsOf (ttlAttribute n.ttl) = [] := by
    cases n.ttl <;> rfl
  calc
    fieldsOf n.toAttributes = fieldsOf n.header ++ fieldsOf n.fields ++ fieldsOf (ttlAttribute n.ttl) := by
      rw [n.toAttributes_eq h, fieldsOf, List.filter_append, List.filter_append]
      rfl
    _ = n.fields := by rw [hheader, httl, h.fieldsOf_eq, List.nil_append, List.append_nil]

/-- The row of a node stands for that node. -/
theorem Record.ofAttributes_node {n : Node} (h : n.fields.AreApart) :
    Record.ofAttributes n.toAttributes = .ok (.node n) := by
  have hread : ∀ name ∈ Node.ownAttributes,
      n.toAttributes.lookup name = (n.header.lookup name).or ((ttlAttribute n.ttl).lookup name) :=
    fun _ ho => n.lookup_toAttributes h ho
  refine ofAttributes_node_iff.mpr ⟨?_, ?_, ?_, ?_, ?_, n.fieldsOf_toAttributes h⟩
  · rw [Fields.string?, hread _ (by decide)]
    rfl
  · rw [Fields.string?, hread _ (by decide)]
    rfl
  · rw [readTtl, hread _ (by decide)]
    cases n.ttl <;> rfl
  · rw [Fields.string?, hread _ (by decide)]
    rfl
  · rw [Stamp.read, Fields.string?, Fields.string?, Fields.string?, hread _ (by decide), hread _ (by decide),
      hread _ (by decide)]
    rfl

theorem Record.ofAttributes_edge (e : Edge) : Record.ofAttributes e.toAttributes = .ok (.edge e) := by
  rw [ofAttributes_edge_iff, e.toAttributes_eq]
  refine ⟨rfl, rfl, rfl, ?_, rfl, rfl⟩
  rw [readTtl]
  cases e.ttl <;> rfl

/-- A record whose row can be read: the fields of a node are apart from the attributes that the library adds. -/
def Record.IsApart : Record → Prop
  | .node n => n.fields.AreApart
  | .edge _ => True

theorem Record.ofAttributes_of_isApart {r : Record} (h : r.IsApart) : Record.ofAttributes r.toAttributes = .ok r := by
  cases r with
  | node n => exact ofAttributes_node h
  | edge e => exact ofAttributes_edge e

/-- Attributes that stand for a record carry its key. -/
theorem Record.key?_of_ofAttributes {attributes : Fields} {r : Record} (h : Record.ofAttributes attributes = .ok r) :
    attributes.key? = some r.key := by
  cases r with
  | node n =>
    obtain ⟨hid, htype, -⟩ := ofAttributes_node_iff.mp h
    simp only [Fields.key?, hid, htype, Record.key, Key.node]
  | edge e =>
    obtain ⟨hid, htype, -⟩ := ofAttributes_edge_iff.mp h
    simp only [Fields.key?, hid, htype, Record.key]

/-- A record that can be stored: the fields of a node are free. -/
def Record.IsStorable : Record → Prop
  | .node n => n.fields.AreFree
  | .edge _ => True

theorem Record.IsStorable.isApart {r : Record} (h : r.IsStorable) : r.IsApart := by
  cases r with
  | node n => exact Fields.AreFree.areApart h
  | edge e => trivial

theorem Record.ofAttributes_toAttributes {r : Record} (h : r.IsStorable) : Record.ofAttributes r.toAttributes = .ok r :=
  ofAttributes_of_isApart h.isApart

theorem Record.key?_toAttributes {r : Record} (h : r.IsStorable) : r.toAttributes.key? = some r.key :=
  key?_of_ofAttributes (r.ofAttributes_toAttributes h)

/-! ## There and back -/

/-- The fields of a row that names nothing twice are apart from the attributes that the library adds. -/
theorem Node.areApart_fieldsOf {attributes : Fields} (h : (Assoc.names attributes).Nodup) :
    (fieldsOf attributes).AreApart := by
  refine ⟨h.sublist (List.filter_sublist.map Prod.fst), fun name hname hown => ?_⟩
  obtain ⟨field, hfield, rfl⟩ := List.mem_map.mp hname
  have hnot := (List.mem_filter.mp hfield).2
  simp only [Bool.not_eq_true', List.contains_eq_mem, decide_eq_false_iff_not] at hnot
  exact hnot hown

/-- The record that a row stands for has a row that can be read. -/
theorem Record.isApart_of_ofAttributes {attributes : Fields} {r : Record} (hn : (Assoc.names attributes).Nodup)
    (h : Record.ofAttributes attributes = .ok r) : r.IsApart := by
  cases r with
  | node n =>
    obtain ⟨-, -, -, -, -, hfields⟩ := ofAttributes_node_iff.mp h
    rw [IsApart, ← hfields]
    exact Node.areApart_fieldsOf hn
  | edge e => trivial

/-- A record and its row. (1) The row of every edge, and of every node whose fields have distinct names that are none
of the library's own attributes, stands for that very record, its fields in their order, and carries its key. (2)
Attributes that stand for a record, whoever wrote them, carry its key; and where they name nothing twice, the row that
the record would be written to stands for it again, whatever else was among them and in whatever order. -/
theorem Record.row_stands_for_record :
    (∀ r : Record, r.IsApart → Record.ofAttributes r.toAttributes = .ok r ∧
      Key.ofAttributes r.toAttributes = .ok r.key) ∧
    ∀ (attributes : Fields) (r : Record), Record.ofAttributes attributes = .ok r →
      (attributes.string? Attribute.id = some r.key.id ∧ attributes.string? Attribute.dataType = some r.key.dataType) ∧
      ((Assoc.names attributes).Nodup → Record.ofAttributes r.toAttributes = .ok r) := by
  refine ⟨fun r hr => ?_, fun attributes r h => ⟨?_, fun hn => ?_⟩⟩
  · have hread : ofAttributes r.toAttributes = .ok r := ofAttributes_of_isApart hr
    exact ⟨hread, by rw [Key.ofAttributes, key?_of_ofAttributes hread]⟩
  · cases r with
    | node n =>
      obtain ⟨hid, htype, -⟩ := ofAttributes_node_iff.mp h
      exact ⟨hid, htype⟩
    | edge e =>
      obtain ⟨hid, htype, -⟩ := ofAttributes_edge_iff.mp h
      exact ⟨hid, htype⟩
  · exact ofAttributes_of_isApart (isApart_of_ofAttributes hn h)

namespace Sample

/-- The stamp of a record that nobody signed. -/
def unsigned : Stamp := ⟨"2024-05-01T10:00:00+00:00", "2024-05-01T10:00:00+00:00", ""⟩

/-- A node with a field under a reserved name that is not one of the library's own. -/
def annotated : Node := ⟨"ann", "User", unsigned, some 1700000000,
    [("linnet:remark", .string "new"), ("name", .string "Ann")]⟩

/-- An edge whose name and far end have the separator in them. -/
def windingEdge : Edge := ⟨"ann", "likes::most", "::dan::", "User", unsigned, none⟩

/-- Attributes in another order than the library's, with a far end that a node does not have. -/
def strayAttributes : Fields :=
  [("name", .string "Ann"), (Attribute.edge, .string "dan"), (Attribute.dataType, .string nodeMarker),
    (Attribute.id, .string "ann")]

/-- A node, an edge and attributes from elsewhere, each there and back. -/
theorem annotated_stands_for_itself :
    (Record.ofAttributes annotated.toAttributes = .ok (.node annotated) ∧
      Key.ofAttributes annotated.toAttributes = .ok (Key.node "ann")) ∧
    (Record.ofAttributes windingEdge.toAttributes = .ok (.edge windingEdge) ∧
      Key.ofAttributes windingEdge.toAttributes = .ok ⟨"ann", "likes::most::::dan::"⟩) ∧
    ∃ n, n.fields = [("name", .string "Ann")] ∧ Record.ofAttributes strayAttributes = .ok (.node n) ∧
      Record.ofAttributes n.toAttributes = .ok (.node n) := by
  have hann : (Record.node annotated).IsApart := ⟨by decide, by decide⟩
  refine ⟨Record.row_stands_for_record.1 _ hann, Record.row_stands_for_record.1 (.edge windingEdge) trivial, ?_⟩
  have hstray : Record.ofAttributes strayAttributes =
      .ok (.node ⟨"ann", "", ⟨"", "", ""⟩, none, [("name", .string "Ann")]⟩) := rfl
  exact ⟨_, rfl, hstray, (Record.row_stands_for_record.2 _ _ hstray).2 (by decide)⟩

end Sample

end PropertyGraph
