import PropertyGraph.Proofs.ChunkFates
import PropertyGraph.Proofs.Deleting
import PropertyGraph.Proofs.PayloadTree
import PropertyGraph.Proofs.Reachable
import PropertyGraph.Proofs.SettingsRules
import PropertyGraph.Proofs.SingularPath
import PropertyGraph.Proofs.Writing

/-!
# The integrity of a stored graph

A table is whole where every edge of it has a node at both ends and no edge is seen longer than the node in whose
partition it lies (`Table.IsWhole`). A write of a payload keeps it so, since the nodes of the payload are seen for ever
and those that it leaves alone are at the ends of old edges only. A deletion keeps it so, since it cuts the node and
the edges of a partition off at one time. So the integrity holds after every history of operations without faults in
which what is created gets new ids (`Store.History.keeps_integrity`).
-/

namespace PropertyGraph

/-! ## Whole tables -/

namespace Table

/-- Whether a table has a node of an id. -/
def HasNode (t : Table) (id : String) : Prop := ∃ n, t.Has (.node n) ∧ n.id = id

/-- Whether the edges of a table have what they need, where the ids of its nodes are among those in use. -/
structure IsWhole (t : Table) (used : List String) (now : Int64) : Prop where
  records : t.Every (Fields.IsRowOf fun _ => True)
  known : ∀ n, t.Has (.node n) → n.id ∈ used
  /-- At both ends of an edge there is a node. -/
  ends : ∀ e, t.Has (.edge e) → t.HasNode e.id ∧ t.HasNode e.neighbor
  /-- From now on an edge is seen only while the node is in whose partition it lies. -/
  live : ∀ e n, t.Has (.edge e) → t.Has (.node n) → n.id = e.id → ∀ later, now ≤ later → isOver e.ttl later = false →
    isOver n.ttl later = false

variable {t t' : Table} {used used' : List String} {now : Int64}

theorem not_has_empty (r : Record) : ¬ empty.Has r := by
  rintro ⟨-, row, hrow, -⟩
  exact absurd hrow List.not_mem_nil

theorem isWhole_empty (used : List String) (now : Int64) : empty.IsWhole used now where
  records := every_empty
  known _ h := absurd h (not_has_empty _)
  ends _ h := absurd h (not_has_empty _)
  live _ _ h := absurd h (not_has_empty _)

/-- A table of records has a node of an id where it has a row under its key. -/
theorem hasNode_iff {q : Record → Prop} (h : t.Every (Fields.IsRowOf q)) {id : String} :
    t.HasNode id ↔ ∃ row ∈ t.rows, row.key = Key.node id := by
  constructor
  · rintro ⟨n, hn, rfl⟩
    obtain ⟨row, hrow, hkey, -⟩ := hn.exists_row
    exact ⟨row, hrow, hkey⟩
  · rintro ⟨row, hrow, hkey⟩
    obtain ⟨r, hr, -, hsame⟩ := h.exists_has hrow
    obtain ⟨n, rfl, hid⟩ := Record.eq_node_of_key (hsame.symm.trans hkey)
    exact ⟨n, hr, hid⟩

namespace IsWhole

/-- A whole table stays whole as time goes on and more ids are used. -/
theorem mono (h : t.IsWhole used now) (hused : used ⊆ used') {later : Int64} (hlater : now ≤ later) :
    t.IsWhole used' later where
  records := h.records
  known n hn := hused (h.known n hn)
  ends := h.ends
  live e n he hn hid instant hinstant := h.live e n he hn hid instant (Std.le_trans hlater hinstant)

/-- The rows of a whole table lie in partitions of ids in use. -/
theorem id_mem (h : t.IsWhole used now) {row : Row} (hrow : row ∈ t.rows) : row.key.id ∈ used := by
  obtain ⟨r, hr, -, hkey⟩ := h.records.exists_has hrow
  rw [hkey]
  cases r with
  | node n => exact h.known n hr
  | edge e =>
    obtain ⟨⟨n, hn, hid⟩, -⟩ := h.ends e hr
    have hused := h.known n hn
    rwa [hid] at hused

end IsWhole

end Table

/-! ## Writing a payload -/

section Payload

variable {t t' : Table} {used used' : List String} {now : Int64} {g : Grower} {typeName : String}
  {branches : List Branch}

/-- What a table has after records were written is one of them, or was there under another key. -/
theorem Table.Wrote.has_cases {records : List Record} (h : t.Wrote t' records) (hr : ∀ r ∈ records, r.IsStorable)
    {r : Record} (hhas : t'.Has r) : r ∈ records ∨ (t.Has r ∧ ∀ other ∈ records, other.key ≠ r.key) := by
  obtain ⟨hstorable, row, hrow, hattributes⟩ := hhas
  rcases h.rows row hrow with ⟨other, hother, hsame⟩ | ⟨hold, hkeys⟩
  · exact Or.inl ((hr other hother).eq_of_toAttributes hstorable (hsame.symm.trans hattributes) ▸ hother)
  · exact Or.inr ⟨⟨hstorable, row, hold, hattributes⟩, Row.key_of_attributes hattributes hstorable ▸ hkeys⟩

theorem Branch.exists_node {id : String} (hid : id ∈ Branch.idsOf branches) :
    ∃ n, Record.node n ∈ Branch.recordsOf branches ∧ n.id = id := by
  obtain ⟨n, hn, rfl⟩ := List.mem_map.mp ((Branch.nodesOf_perm branches).mem_iff.mpr hid)
  exact ⟨n, mem_nodesOf.mp hn, rfl⟩

/-- A whole table in which the records of a payload are written is whole. -/
theorem Table.IsWhole.wrote (h : t.IsWhole used now) (hgrown : Branch.AreGrown g typeName branches)
    (hw : t.Wrote t' (Branch.recordsOf branches)) (hused : used ⊆ used') (hids : Branch.idsOf branches ⊆ used') :
    t'.IsWhole used' now := by
  have hstorable := Branch.isStorable_of_areGrown hgrown
  have hrecords : t'.Every (Fields.IsRowOf fun _ => True) := by
    intro row hrow
    rcases hw.rows row hrow with ⟨r, hr, hattributes⟩ | ⟨hold, -⟩
    · exact ⟨r, hstorable r hr, trivial, hattributes⟩
    · exact h.records row hold
  have hold : ∀ id, t.HasNode id → t'.HasNode id := by
    intro id hnode
    obtain ⟨row, hrow, hkey⟩ := (Table.hasNode_iff h.records).mp hnode
    obtain ⟨found, hfound, hsame⟩ := hw.old_keys row hrow
    exact (Table.hasNode_iff hrecords).mpr ⟨found, hfound, hsame.trans hkey⟩
  have hnew : ∀ id ∈ Branch.idsOf branches, t'.HasNode id := by
    intro id hid
    obtain ⟨n, hn, rfl⟩ := Branch.exists_node hid
    exact (Table.hasNode_iff hrecords).mpr (hw.new_keys _ hn)
  refine ⟨hrecords, fun n hn => ?_, fun e he => ?_, fun e n he hn hid later hlater hlive => ?_⟩
  · rcases hw.has_cases hstorable hn with hmem | ⟨hn, -⟩
    · exact hids (Branch.id_mem_of_mem_recordsOf hgrown _ hmem)
    · exact hused (h.known n hn)
  · rcases hw.has_cases hstorable he with hmem | ⟨he, -⟩
    · obtain ⟨hid, hneighbor⟩ := Branch.ends_mem_of_edge hgrown (mem_edgesOf.mpr hmem)
      exact ⟨hnew _ hid, hnew _ hneighbor⟩
    · exact ⟨hold _ (h.ends e he).1, hold _ (h.ends e he).2⟩
  · rcases hw.has_cases hstorable hn with hmem | ⟨hn, hkeys⟩
    · exact Branch.isExpired_of_areGrown hgrown later _ hmem
    · rcases hw.has_cases hstorable he with hmem | ⟨he, -⟩
      · obtain ⟨m, hm, hmid⟩ := Branch.exists_node (Branch.ends_mem_of_edge hgrown (mem_edgesOf.mpr hmem)).1
        exact absurd (congrArg Key.node (hmid.trans hid.symm)) (hkeys _ hm)
      · exact h.live e n he hn hid later hlater hlive

end Payload

/-! ## Deleting a partition -/

/-- A whole table in which a partition is deleted is whole. -/
theorem Table.IsWhole.markWhere {t : Table} {used : List String} {now : Int64} (h : t.IsWhole used now) (id : String)
    (ttl : Int64) : (t.markWhere (Row.isDeletedBy id ttl now) ttl).IsWhole used now := by
  have hkept : ∀ other, t.HasNode other → (t.markWhere (Row.isDeletedBy id ttl now) ttl).HasNode other := by
    rintro other ⟨n, hn, rfl⟩
    exact ⟨_, (has_node_markWhere_iff h.records).mpr ⟨n, hn, rfl⟩, rfl⟩
  refine ⟨h.records.markWhere_isDeletedBy id ttl now,
    fun n hn => ?_, fun e he => ?_, fun e n he hn hid later hlater hlive => ?_⟩
  · obtain ⟨old, hold, rfl⟩ := (has_node_markWhere_iff h.records).mp hn
    exact h.known old hold
  · obtain ⟨old, hold, rfl⟩ := (has_edge_markWhere_iff h.records).mp he
    exact ⟨hkept _ (h.ends old hold).1, hkept _ (h.ends old hold).2⟩
  · obtain ⟨edge, hedge, rfl⟩ := (has_edge_markWhere_iff h.records).mp he
    obtain ⟨node, hnode, rfl⟩ := (has_node_markWhere_iff h.records).mp hn
    have hsame : node.id = edge.id := hid
    have hseen := h.live edge node hedge hnode hsame later hlater
    dsimp only at hlive ⊢
    rw [hsame]
    by_cases hpartition : edge.id = id
    · rw [if_pos hpartition, isOver_ttlAfter ttl _ hlater] at hlive ⊢
      exact ⟨hseen hlive.1, hlive.2⟩
    · rw [if_neg hpartition] at hlive ⊢
      exact hseen hlive

/-! ## Operations -/

/-- Whether no request meets a fault in a store and all its tables are whole. -/
structure Store.IsWhole (s : Store) (used : List String) (now : Int64) : Prop where
  faultless : s.IsFaultless
  tables : ∀ table, (s.tableOf table).IsWhole used now

namespace Store.IsWhole

variable {s s' : Store} {used used' : List String} {now : Int64} {table : String}

theorem mono (h : s.IsWhole used now) (hused : used ⊆ used') {later : Int64} (hlater : now ≤ later) :
    s.IsWhole used' later :=
  ⟨h.faultless, fun table => (h.tables table).mono hused hlater⟩

/-- A whole store in which the records of a payload are written is whole. -/
theorem wrote (h : s.IsWhole used now) {g : Grower} {typeName : String} {branches : List Branch}
    (hgrown : Branch.AreGrown g typeName branches) (hw : s.Wrote s' table (Branch.recordsOf branches))
    (hused : used ⊆ used') (hids : Branch.idsOf branches ⊆ used') : s'.IsWhole used' now where
  faultless := hw.faultless
  tables other := by
    by_cases ho : other = table
    · rw [ho]
      exact (h.tables table).wrote hgrown hw.wrote hused hids
    · rw [hw.others other ho]
      exact (h.tables other).mono hused (Std.le_refl now)

/-- A whole store in which an entity is deleted is whole. -/
theorem softDelete (h : s.IsWhole used now) (table : String) {pageLimit : Nat} (hl : 0 < pageLimit) (id : String)
    (ttl : Int64) : (PropertyGraph.softDelete s table pageLimit id ttl now).2.IsWhole used now := by
  obtain ⟨s', hdelete, hmarks⟩ := softDelete_eq h.faultless table hl id ttl now
  rw [hdelete]
  refine ⟨hmarks.faultless, fun other => ?_⟩
  by_cases ho : other = table
  · rw [ho, hmarks.marked]
    exact (h.tables table).markWhere id ttl
  · rw [hmarks.others other ho]
    exact h.tables other

/-- A whole store in which several entities are deleted is whole. -/
theorem softDeleteMany (h : s.IsWhole used now) (table : String) {pageLimit : Nat} (hl : 0 < pageLimit) (ttl : Int64)
    (ids : List String) : (PropertyGraph.softDeleteMany s table pageLimit ttl now ids).2.IsWhole used now := by
  induction ids generalizing s with
  | nil => exact h
  | cons id rest ih => exact ih (h.softDelete table hl id ttl)

end Store.IsWhole

namespace Engine

variable {s : Store} {used : List String} {last : Int64}

/-- To create with ids that are new keeps a store whole. -/
theorem isWhole_create (e : Engine) (h : s.IsWhole used last) (ids : IdSource) (now : Instant) (typeName : String)
    (r : CreateRequest) (hnew : ∀ id ∈ ids.drawnSince (e.create s ids now typeName r).2.2, id ∉ used) :
    (e.create s ids now typeName r).2.1.IsWhole (used ++ ids.drawnSince (e.create s ids now typeName r).2.2) last := by
  rcases e.create_cases s ids now typeName r with ⟨answer, ids', hcreate, -⟩ | ⟨branch, rest, ids', hlevel⟩
  · rw [hcreate]
    exact h.mono (List.subset_append_left ..) (Std.le_refl last)
  · obtain ⟨hgrown, -, hgives⟩ := Grower.level_eq_tree hlevel
    rw [create_of_level hlevel] at hnew ⊢
    have hids : Branch.idsOf (branch :: rest) ⊆ ids.drawnSince ids' := hgives.subset
    have hlacks : ∀ record ∈ Branch.recordsOf (branch :: rest), (s.tableOf e.table).lacks record = true := by
      intro record hrecord
      refine Table.lacks_iff.mpr fun row hrow hkey => ?_
      have hused := (h.tables e.table).id_mem hrow
      rw [hkey] at hused
      exact hnew _ (hids (Branch.id_mem_of_mem_recordsOf hgrown record hrecord)) hused
    have hwrote := putNew_wrote h.faultless e.table (Branch.isStorable_of_areGrown hgrown)
    rw [List.filter_eq_self.mpr hlacks] at hwrote
    exact h.wrote hgrown hwrote (List.subset_append_left ..) (List.Subset.trans hids (List.subset_append_right ..))

/-- To create or overwrite keeps a store whole, whatever the ids. -/
theorem isWhole_upsert (e : Engine) (h : s.IsWhole used last) (ids : IdSource) (now : Instant) (typeName : String)
    (r : UpsertRequest) :
    (e.upsert s ids now typeName r).2.1.IsWhole
      (used ++ ((r.target.bind Target.id).toList ++ ids.drawnSince (e.upsert s ids now typeName r).2.2)) last := by
  rcases e.upsert_cases s ids now typeName r with ⟨answer, ids', hupsert, -⟩ | ⟨branch, rest, ids', hlevel⟩
  · rw [hupsert]
    exact h.mono (List.subset_append_left ..) (Std.le_refl last)
  · obtain ⟨hgrown, -, hgives⟩ := Grower.level_eq_tree hlevel
    obtain ⟨s', hupsert, hwrote⟩ := upsert_eq h.faultless hlevel
    rw [hupsert]
    exact h.wrote hgrown hwrote (List.subset_append_left ..)
      (List.Subset.trans hgives.subset (List.subset_append_right ..))

theorem isWhole_delete (e : Engine) {now : Int64} (h : s.IsWhole used now) (r : DeleteRequest) :
    (e.delete s now r).2.IsWhole used now := by
  unfold delete
  split
  · exact h
  · exact h.softDelete e.table (Settings.ranges_of_validate e.valid).2 _ _

theorem isWhole_deleteMany (e : Engine) {now : Int64} (h : s.IsWhole used now) (r : DeleteRequest) :
    (e.deleteMany s now r).2.IsWhole used now := by
  unfold deleteMany
  split
  · exact h
  · exact h.softDeleteMany e.table (Settings.ranges_of_validate e.valid).2 _ _

end Engine

/-! ## Histories -/

/-- The stores that come about from one without tables by what engines do without faults, with the ids in use, which
are those that were drawn and those that nodes were overwritten under, and the time of the last operation. Times do not
go back, and what is created gets ids that are not in use. -/
inductive Store.History : Store → List String → Int64 → Prop
  | empty (indexName : String) (start : Int64) : History (Store.empty indexName) [] start
  | create {s : Store} {used : List String} {last : Int64} (h : History s used last) (e : Engine) (ids : IdSource)
      (now : Instant) (typeName : String) (r : CreateRequest) (hlater : last ≤ now.seconds)
      (hnew : ∀ id ∈ ids.drawnSince (e.create s ids now typeName r).2.2, id ∉ used) :
      History (e.create s ids now typeName r).2.1 (used ++ ids.drawnSince (e.create s ids now typeName r).2.2)
        now.seconds
  | upsert {s : Store} {used : List String} {last : Int64} (h : History s used last) (e : Engine) (ids : IdSource)
      (now : Instant) (typeName : String) (r : UpsertRequest) (hlater : last ≤ now.seconds) :
      History (e.upsert s ids now typeName r).2.1
        (used ++ ((r.target.bind Target.id).toList ++ ids.drawnSince (e.upsert s ids now typeName r).2.2)) now.seconds
  | delete {s : Store} {used : List String} {last : Int64} (h : History s used last) (e : Engine) (now : Int64)
      (r : DeleteRequest) (hlater : last ≤ now) : History (e.delete s now r).2 used now
  | deleteMany {s : Store} {used : List String} {last : Int64} (h : History s used last) (e : Engine) (now : Int64)
      (r : DeleteRequest) (hlater : last ≤ now) : History (e.deleteMany s now r).2 used now

/-- Every store with such a history is whole. -/
theorem Store.History.isWhole {s : Store} {used : List String} {last : Int64} (h : s.History used last) :
    s.IsWhole used last := by
  induction h with
  | empty indexName start => exact ⟨⟨rfl, rfl, rfl⟩, fun _ => Table.isWhole_empty [] start⟩
  | create _ e ids now typeName r hlater hnew ih =>
    exact (e.isWhole_create ih ids now typeName r hnew).mono (List.Subset.refl _) hlater
  | upsert _ e ids now typeName r hlater ih =>
    exact (e.isWhole_upsert ih ids now typeName r).mono (List.Subset.refl _) hlater
  | delete _ e now r hlater ih => exact e.isWhole_delete (ih.mono (List.Subset.refl _) hlater) r
  | deleteMany _ e now r hlater ih => exact e.isWhole_deleteMany (ih.mono (List.Subset.refl _) hlater) r

/-- In every store that comes about without faults, at times that do not go back and with new ids for what is created,
every row but those of nodes is that of an edge with rows of nodes at both ends, and from now on an edge that is seen
lies in the partition of a node that is seen. -/
theorem Store.History.keeps_integrity {s : Store} {used : List String} {last : Int64} (h : s.History used last)
    (table : String) :
    ∀ row ∈ (s.tableOf table).rows, row.key.dataType ≠ nodeMarker →
      ∃ e, Record.ofAttributes row.attributes = .ok (.edge e) ∧
      (s.get? table (Key.node e.id)).isSome ∧ (s.get? table (Key.node e.neighbor)).isSome ∧
        ∀ later, last ≤ later → isOver e.ttl later = false → ((s.tableOf table).liveNode? later e.id).isSome := by
  intro row hrow htype
  have hwhole := h.isWhole.tables table
  obtain ⟨r, hr, hattributes, hkey⟩ := hwhole.records.exists_has hrow
  cases r with
  | node n => exact absurd (congrArg Key.dataType hkey) htype
  | edge e =>
    have hstored : ∀ {n : Node}, (s.tableOf table).Has (.node n) →
      ∃ found, (s.tableOf table).get? (Key.node n.id) = some found ∧
        Record.ofAttributes found.attributes = .ok (.node n) := by
      intro n hn
      obtain ⟨found, hfound, hfoundKey, hnode⟩ := hn.exists_row
      have hget := Table.get?_of_mem hfound
      rw [hfoundKey] at hget
      exact ⟨found, hget, hnode⟩
    obtain ⟨⟨near, hnear, hid⟩, far, hfar, hneighbor⟩ := hwhole.ends e hr
    obtain ⟨nearRow, hnearRow, hnearRead⟩ := hstored hnear
    obtain ⟨farRow, hfarRow, -⟩ := hstored hfar
    rw [hid] at hnearRow
    rw [hneighbor] at hfarRow
    refine ⟨e, hattributes ▸ Record.ofAttributes_edge e, by rw [get?, hnearRow]; rfl, by rw [get?, hfarRow]; rfl,
      fun later hlater hlive => ?_⟩
    have hseen := hwhole.live e near hr hnear hid later hlater hlive
    rw [Table.liveNode?, hnearRow, Option.map_some, Option.bind_some,
      Fields.liveNode?_eq_some_iff.mpr ⟨hnearRead, hseen⟩]
    rfl

namespace Sample

/-- After the new user was created and one of those whom the user follows was deleted, the edge to that one is seen for
as long as the new user is. -/
theorem withoutGus_keeps_integrity : withoutGus.History ["eve", "hal", "gus"] 5 ∧
    ∃ row ∈ (withoutGus.tableOf users.table).rows, ∃ e, Record.ofAttributes row.attributes = .ok (.edge e) ∧
      row.key = ⟨"eve", "follow::gus"⟩ ∧ (withoutGus.get? users.table (Key.node e.neighbor)).isSome ∧
        ((withoutGus.tableOf users.table).liveNode? 9 e.id).isSome := by
  have hcreated : created.History ["eve", "hal", "gus"] 0 := by
    have hnew := Store.History.create (.empty "edge-dataType" 0) users (fresh 0) ⟨0, 0⟩ "User" newcomer (Std.le_refl 0)
      fun _ _ => List.not_mem_nil
    have hdrawn : (fresh 0).drawnSince (users.create (Store.empty "edge-dataType") (fresh 0)
      ⟨0, 0⟩ "User" newcomer).2.2 =
        ["eve", "hal", "gus"] := by
      rw [Engine.create, expand_newcomer]
      rfl
    rwa [hdrawn] at hnew
  have hhistory : withoutGus.History ["eve", "hal", "gus"] 5 := .delete hcreated users 5 _ (by decide)
  have hfollows : ∃ row ∈ (withoutGus.tableOf users.table).rows, row.key = ⟨"eve", "follow::gus"⟩ ∧
      (row.liveEdge? 9).isSome := by
    rw [withoutGus_marks.marked, created_eq]
    decide +kernel
  obtain ⟨row, hrow, hkey, hseen⟩ := hfollows
  obtain ⟨e, hread, -, hneighbor, hlive⟩ := hhistory.keeps_integrity users.table row hrow (by rw [hkey]; decide)
  obtain ⟨found, hfound⟩ := Option.isSome_iff_exists.mp hseen
  obtain ⟨hsame, hover⟩ := Row.liveEdge?_eq_some_iff.mp hfound
  obtain rfl : found = e := by simpa using hsame.symm.trans hread
  exact ⟨hhistory, row, hrow, found, hread, hkey, hneighbor, hlive 9 (by decide) hover⟩

end Sample

end PropertyGraph
