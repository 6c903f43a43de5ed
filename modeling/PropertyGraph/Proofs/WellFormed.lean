import PropertyGraph.Proofs.Faults
import PropertyGraph.Proofs.FilteredPath

/-!
# Every store that comes about is well formed

What engines of one schema leave in a store, whatever faults are set up in between, are rows of records which that
schema knows (`Store.ReachedBy.every_isRowOf`): each under the key that it carries, with the attributes of its record
in their order. So nothing that is stored fails to be read, and no operation on such a store reports that something did
(`Store.ReachedBy.is_well_formed`).
-/

namespace PropertyGraph

/-- The stores that come about from one without tables by what engines of a schema do, of whatever settings, and by
faults that are set up in between. -/
inductive Store.ReachedBy (schema : Schema) : Store → Prop
  | empty (indexName : String) : ReachedBy schema (Store.empty indexName)
  | create {s : Store} (h : ReachedBy schema s) (e : Engine) (he : e.schema = schema) (ids : IdSource)
      (now : Instant) (typeName : String) (r : CreateRequest) : ReachedBy schema (e.create s ids now typeName r).2.1
  | upsert {s : Store} (h : ReachedBy schema s) (e : Engine) (he : e.schema = schema) (ids : IdSource)
      (now : Instant) (typeName : String) (r : UpsertRequest) : ReachedBy schema (e.upsert s ids now typeName r).2.1
  | delete {s : Store} (h : ReachedBy schema s) (e : Engine) (he : e.schema = schema) (now : Int64)
      (r : DeleteRequest) : ReachedBy schema (e.delete s now r).2
  | deleteMany {s : Store} (h : ReachedBy schema s) (e : Engine) (he : e.schema = schema) (now : Int64)
      (r : DeleteRequest) : ReachedBy schema (e.deleteMany s now r).2
  | throttling {s : Store} (h : ReachedBy schema s) (calls : Nat) : ReachedBy schema (s.throttling calls)
  | leavingUndone {s : Store} (h : ReachedBy schema s) (rounds : Nat) : ReachedBy schema (s.leavingUndone rounds)
  | rejecting {s : Store} (h : ReachedBy schema s) (id : String) : ReachedBy schema (s.rejecting id)

/-- A row that a record was written to which a schema knows is still such a row with a time to live. -/
theorem isKeptByTtl_isOf {schema : Schema} : Fields.IsKeptByTtl (Fields.IsRowOf (Record.IsOf schema)) :=
  Fields.isKeptByTtl_isRowOf fun _ ttl h => h.withTtl ttl

/-- Every row of a store that comes about is one that a record was written to which the schema knows. -/
theorem Store.ReachedBy.every_isRowOf {schema : Schema} {s : Store} (h : s.ReachedBy schema) :
    s.Every (Fields.IsRowOf (Record.IsOf schema)) := by
  induction h with
  | empty indexName => exact Store.every_empty indexName
  | create _ e he ids now typeName r ih =>
    exact e.every_create (fun r hr hof => ⟨r, hr, he ▸ hof, rfl⟩) ih ids now typeName r
  | upsert _ e he ids now typeName r ih =>
    exact e.every_upsert (fun r hr hof => ⟨r, hr, he ▸ hof, rfl⟩) ih ids now typeName r
  | delete _ e _ now r ih => exact e.every_delete isKeptByTtl_isOf ih now r
  | deleteMany _ e _ now r ih => exact e.every_deleteMany isKeptByTtl_isOf ih now r
  | throttling _ calls ih => exact ih
  | leavingUndone _ rounds ih => exact ih
  | rejecting _ id ih => exact ih

/-! ## Rows -/

/-- Whether attributes under a key are such as a schema asks for. -/
structure Fields.IsWellFormed (schema : Schema) (key : Key) (attributes : Fields) : Prop where
  /-- They carry that key. -/
  carries : attributes.key? = some key
  /-- They stand for a record, and are its attributes in their order. -/
  record : ∃ r, Record.ofAttributes attributes = .ok r ∧ r.toAttributes = attributes
  /-- Those of a node name no far end, and its fields no reserved name. -/
  node : ∀ n, Record.ofAttributes attributes = .ok (.node n) →
    attributes.lookup Attribute.edge = none ∧ ∀ name ∈ Assoc.names n.fields, Attribute.isReserved name = false
  /-- Those of an edge have as their data type the name of a side, two colons and the far end. -/
  edge : ∀ e, Record.ofAttributes attributes = .ok (.edge e) → ∃ side ∈ schema.sides, ∃ far,
    attributes.string? Attribute.dataType = some (side.edgeName ++ sortSeparator ++ far) ∧
    attributes.string? Attribute.edge = some far

/-- A row that a record was written to which a schema knows is well formed. -/
theorem Row.isWellFormed {schema : Schema} {row : Row} (h : row.attributes.IsRowOf (Record.IsOf schema)) :
    row.attributes.IsWellFormed schema row.key := by
  obtain ⟨r, hr, hof, hattributes⟩ := h
  have hread : Record.ofAttributes row.attributes = .ok r := hattributes ▸ r.ofAttributes_toAttributes hr
  refine ⟨row.carries, ⟨r, hread, hattributes.symm⟩, fun n hn => ?_, fun e he => ?_⟩
  · obtain rfl := Except.ok.inj (hread.symm.trans hn)
    refine ⟨?_, hr.2⟩
    rw [hattributes, Record.toAttributes, n.lookup_toAttributes (Fields.AreFree.areApart hr) (by decide)]
    cases n.ttl <;> rfl
  · obtain rfl := Except.ok.inj (hread.symm.trans he)
    obtain ⟨side, hside, hname⟩ := hof
    obtain ⟨-, htype, hneighbor, -⟩ := Record.ofAttributes_edge_iff.mp he
    exact ⟨side, hside, e.neighbor, hname ▸ htype, hneighbor⟩

/-! ## Messages -/

/-- Whether one of the messages of a response is of a kind. -/
def Response.Reports {α : Type} (r : Response α) (kind : ErrorKind) : Prop :=
  ∃ message ∈ r.errors, (kind.label ++ ": ").toList <+: message.toList

theorem ErrorKind.label_injective {kind other : ErrorKind} (h : kind.label = other.label) : kind = other := by
  revert h
  cases kind <;> cases other <;> decide

theorem ErrorKind.colon_not_mem_label (kind : ErrorKind) : ':' ∉ kind.label.toList := by
  cases kind <;> decide

/-- A message that begins with the label of a kind is that of an error of this kind. -/
theorem GraphError.kind_eq_of_message {fault : GraphError} {kind : ErrorKind}
    (h : (kind.label ++ ": ").toList <+: fault.message.toList) : fault.kind = kind := by
  have htake : ∀ label rest : List Char, ':' ∉ label → (label ++ ':' :: rest).takeWhile (· ≠ ':') = label := by
    intro label rest hcolon
    rw [List.takeWhile_append_of_pos]
    · simp
    · intro c hc
      rw [decide_eq_true_iff]
      rintro rfl
      exact hcolon hc
  obtain ⟨rest, hrest⟩ := h
  rw [message, String.toList_append, String.toList_append, String.toList_append, List.append_assoc,
    List.append_assoc] at hrest
  have hlabel := congrArg (List.takeWhile fun c => decide (c ≠ ':')) hrest
  have hcolon : (": ".toList : List Char) = [':', ' '] := rfl
  simp only [hcolon, List.cons_append, htake _ _ kind.colon_not_mem_label,
    htake _ _ fault.kind.colon_not_mem_label] at hlabel
  exact ErrorKind.label_injective (String.toList_inj.mp hlabel.symm)

/-- A response with outward errors reports nothing that cannot be read. -/
theorem Response.not_reports {α : Type} {data : α} {errors : List GraphError} (h : ∀ fault ∈ errors, fault.IsOutward)
    {kind : ErrorKind} (hkind : kind = .internal ∨ kind = .json) : ¬ (withErrors data errors).Reports kind := by
  rintro ⟨message, hmem, hbegins⟩
  obtain ⟨fault, hfault, rfl⟩ := List.mem_map.mp hmem
  have heq := GraphError.kind_eq_of_message hbegins
  rcases hkind with rfl | rfl
  · exact (h fault hfault).1 heq
  · exact (h fault hfault).2 heq

theorem Response.failed_not_reports {α : Type} {data : α} {fault : GraphError} (h : fault.IsOutward) {kind : ErrorKind}
    (hkind : kind = .internal ∨ kind = .json) : ¬ (failed data fault).Reports kind :=
  not_reports (fun _ hmem => List.mem_singleton.mp hmem ▸ h) hkind

/-! ## What operations report -/

variable {schema : Schema} {s : Store}

/-- A scan of rows of records reports outward errors only. -/
theorem isOutward_of_scan (hs : s.Every (Fields.IsRowOf (Record.IsOf schema))) (table : String) (ttl : Int64)
    (q : Query) : ∀ fault ∈ (scan s table ttl q).1.errors, fault.IsOutward := by
  induction s, q using @scan.induct Store _ table ttl with
  | case1 s q e he =>
    rw [scan_error he]
    intro fault hf
    exact List.mem_singleton.mp hf ▸ (hs.isReadable.query table q).1.outward e he
  | case2 s q page hpage hlast =>
    rw [scan_last hpage hlast]
    exact isOutward_of_markRows table ttl page.rows
  | case3 s q page hpage last hlast ih =>
    rw [scan_next hpage hlast]
    intro fault hf
    rcases List.mem_append.mp hf with hf | hf
    · exact isOutward_of_markRows table ttl page.rows fault hf
    · exact ih ((hs.query table q).markRows isKeptByTtl_isOf table ttl page.rows) fault hf

/-- Deleting entities reports outward errors only. -/
theorem isOutward_of_softDeleteMany (hs : s.Every (Fields.IsRowOf (Record.IsOf schema))) (table : String)
    (pageLimit : Nat) (ttl now : Int64) (ids : List String) :
    ∀ fault ∈ (softDeleteMany s table pageLimit ttl now ids).1.errors, fault.IsOutward := by
  induction ids generalizing s with
  | nil => exact nofun
  | cons id rest ih =>
    intro fault hf
    rcases List.mem_append.mp hf with hf | hf
    · exact isOutward_of_scan hs table ttl _ fault hf
    · exact ih (hs.scan isKeptByTtl_isOf table ttl _) fault hf

namespace Engine

variable {e : Engine} {kind : ErrorKind}

/-- Reading the edges along sides reports outward errors only. -/
theorem isOutward_of_edgesAlong (hs : s.IsReadable) (now : Int64) (id : String) (sides : List EdgeSide) :
    ∀ fault ∈ (e.edgesAlong s now id sides).2.1, fault.IsOutward := by
  induction sides generalizing s with
  | nil => exact nofun
  | cons side rest ih =>
    have hall := EdgeReader.isSound_all (e.reader now) hs id side e.settings.query.queryAllLimit none
    have hrest := ih hall.readable
    rw [edgesAlong]
    dsimp only
    split
    · exact hrest
    next e he =>
      intro fault hf
      rcases List.mem_cons.mp hf with rfl | hf
      · exact hall.outward _ he
      · exact hrest fault hf

/-- A traversal that names no side or no root is refused outwardly. -/
theorem isOutward_of_resolve {r : ConnectionRequest} {fault : GraphError} (h : e.resolve r = .error fault) :
    fault.IsOutward := by
  rw [resolve] at h
  split at h
  · exact Except.error.inj h ▸ GraphError.isOutward_input _
  · split at h
    · exact Except.error.inj h ▸ GraphError.isOutward_input _
    · simp at h

/-- A filter that cannot be read is refused outwardly. -/
theorem isOutward_of_readFilter {r : ConnectionRequest} {fault : GraphError} (h : readFilter r = .error fault) :
    fault.IsOutward := by
  rw [readFilter.eq_def] at h
  split at h
  · simp at h
  · simp at h
  next j _ _ =>
    split at h
    next e he => exact Except.error.inj h ▸ Filter.isOutward_of_ofJson he
    · simp at h

/-- The neighbors of a traversal are read soundly. -/
theorem isSound_neighbors (hs : s.IsReadable) (now : Int64) (r : ConnectionRequest) (side : EdgeSide) (root : String)
    (limit : Nat) (filter : Option Filter) : Store.IsSound (e.neighbors s now r side root limit filter) := by
  cases filter with
  | some f => exact EdgeReader.isSound_all (e.reader now) hs root side _ _
  | none => exact EdgeReader.isSound_page (e.reader now) hs root side _ _

/-- To get a node reports nothing that cannot be read. -/
theorem get_not_reports (hs : s.IsReadable) (hkind : kind = .internal ∨ kind = .json) (now : Int64) (id : String) :
    ¬ (e.get s now id).1.Reports kind := by
  obtain ⟨hreadable, hlook⟩ := isOutward_of_hydrateChunks hs e.table now (chunks e.settings.query.getBatchSize [id])
  unfold get
  dsimp only
  split
  · refine Response.not_reports (fun fault hf => ?_) hkind
    rcases List.mem_append.mp hf with hf | hf
    · exact hlook fault hf
    · exact List.mem_singleton.mp hf ▸ GraphError.isOutward_noNode id
  next node _ _ =>
    refine Response.not_reports (fun fault hf => ?_) hkind
    rcases List.mem_append.mp hf with hf | hf
    · exact hlook fault hf
    · exact isOutward_of_edgesAlong hreadable now id _ fault hf

/-- The singular traversal reports nothing that cannot be read. -/
theorem connection_not_reports (hs : s.IsReadable) (hkind : kind = .internal ∨ kind = .json) (now : Int64)
    (r : ConnectionRequest) : ¬ (e.connection s now r).1.Reports kind := by
  unfold connection
  split
  next fault hfault => exact Response.failed_not_reports (isOutward_of_resolve hfault) hkind
  next side root _ =>
    dsimp only
    have hsound := EdgeReader.isSound_firstNeighbors (e.reader now) side s
      ((e.reader now).query root side (limitOr e.settings.query.singularLimit r.arguments.limit) none) hs
    split
    next fault s' heq =>
      rw [heq] at hsound
      exact Response.failed_not_reports (hsound.outward fault rfl) hkind
    next neighbors s' heq =>
      rw [heq] at hsound
      exact Response.not_reports (isOutward_of_hydrateChunks hsound.readable e.table now _).2 hkind

/-- The plural traversal reports nothing that cannot be read. -/
theorem connectionPlural_not_reports (hs : s.IsReadable) (hkind : kind = .internal ∨ kind = .json) (now : Int64)
    (r : ConnectionRequest) : ¬ (e.connectionPlural s now r).1.Reports kind := by
  unfold connectionPlural
  split
  next fault hfault => exact Response.failed_not_reports (isOutward_of_resolve hfault) hkind
  next side root _ =>
    split
    next fault hfault => exact Response.failed_not_reports (isOutward_of_readFilter hfault) hkind
    next filter _ =>
      dsimp only
      have hsound :=
        isSound_neighbors (e := e) hs now r side root (limitOr e.settings.query.defaultLimit r.arguments.limit) filter
      split
      next fault s' heq =>
        rw [heq] at hsound
        exact Response.failed_not_reports (hsound.outward fault rfl) hkind
      next page s' heq =>
        rw [heq] at hsound
        exact Response.not_reports (isOutward_of_hydrateChunks hsound.readable e.table now _).2 hkind

/-- To delete reports nothing that cannot be read. -/
theorem delete_not_reports (hs : s.Every (Fields.IsRowOf (Record.IsOf schema)))
    (hkind : kind = .internal ∨ kind = .json) (now : Int64) (r : DeleteRequest) :
    ¬ (e.delete s now r).1.Reports kind := by
  unfold delete
  split
  · exact Response.failed_not_reports (GraphError.isOutward_input _) hkind
  · exact Response.not_reports (isOutward_of_scan hs e.table _ _) hkind

/-- To delete several entities reports nothing that cannot be read. -/
theorem deleteMany_not_reports (hs : s.Every (Fields.IsRowOf (Record.IsOf schema)))
    (hkind : kind = .internal ∨ kind = .json) (now : Int64) (r : DeleteRequest) :
    ¬ (e.deleteMany s now r).1.Reports kind := by
  unfold deleteMany
  split
  · exact Response.failed_not_reports (GraphError.isOutward_input _) hkind
  · exact Response.not_reports (isOutward_of_softDeleteMany hs e.table _ _ now _) hkind

end Engine

/-- Every store that comes about is well formed. Whatever engines of one schema create, overwrite and delete, with
whatever ids, times and faults, every row stands under the key that it carries, is read as the record whose attributes
it has in their order, and is that of a node without a far end and without fields of reserved names or that of an edge
along a side of the schema. So reading and deleting never report that something could not be read. -/
theorem Store.ReachedBy.is_well_formed (h : s.ReachedBy schema) :
    (∀ table, ∀ row ∈ (s.tableOf table).rows,
      s.get? table row.key = some row.attributes ∧ row.attributes.IsWellFormed schema row.key) ∧
    ∀ (e : Engine) (kind : ErrorKind), kind = .internal ∨ kind = .json →
      (∀ now id, ¬ (e.get s now id).1.Reports kind) ∧ (∀ now r, ¬ (e.connection s now r).1.Reports kind) ∧
        (∀ now r, ¬ (e.connectionPlural s now r).1.Reports kind) ∧ (∀ now r, ¬ (e.delete s now r).1.Reports kind) ∧
        ∀ now r, ¬ (e.deleteMany s now r).1.Reports kind := by
  have hrows := h.every_isRowOf
  have hs : s.IsReadable := hrows.isReadable
  constructor
  · intro table row hrow
    refine ⟨?_, Row.isWellFormed (hrows table row hrow)⟩
    rw [Store.get?, Table.get?_of_mem hrow]
    rfl
  · intro e kind hkind
    exact ⟨Engine.get_not_reports hs hkind, Engine.connection_not_reports hs hkind,
      Engine.connectionPlural_not_reports hs hkind,
      Engine.delete_not_reports hrows hkind, Engine.deleteMany_not_reports hrows hkind⟩

/-- After a deletion in which the rows of one partition could not be marked, every row is well formed, and getting the
new user reports no row that could not be read. -/
theorem Sample.marked_in_part_is_well_formed :
    let s := (users.deleteMany (created.rejecting "hal") 5 { target := { ids := ["hal", "eve"] } }).2
    s.ReachedBy users.schema ∧
      (∀ table, ∀ row ∈ (s.tableOf table).rows,
        s.get? table row.key = some row.attributes ∧ row.attributes.IsWellFormed users.schema row.key) ∧
      ¬ (users.get s 4 "eve").1.Reports .internal := by
  intro s
  have hcreated : created.ReachedBy users.schema :=
    .create (.empty "edge-dataType") users rfl (fresh 0) ⟨0, 0⟩ "User" newcomer
  have hreached : s.ReachedBy users.schema := .deleteMany (.rejecting hcreated "hal") users rfl 5 _
  obtain ⟨hrows, hreports⟩ := hreached.is_well_formed
  exact ⟨hreached, hrows, (hreports users .internal (Or.inl rfl)).1 4 "eve"⟩

end PropertyGraph
