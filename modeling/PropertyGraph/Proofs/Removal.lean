import PropertyGraph.Proofs.Hidden

/-!
# What was written can be deleted

An upsert leaves, under the id of the node that it answers with, a row that never expires (`Engine.upsert_lasts`). A
deletion that names the id marks this row, counts it, and the node is not found from then on (`DeleteCall.removes`).
Only the empty id is met differently: an upsert writes a node under it, a deletion of several entities marks it, and a
deletion of one takes it for none (`Engine.upserted_is_deleted`).
-/

namespace PropertyGraph

/-! ## The node that an upsert answers with -/

/-- A text that stands under a name after edge fields were written stood there before. -/
theorem string?_of_foldl_insert {now : Int64} {root : String} {records : List Record} {sides : List EdgeSide}
    {fields : Fields} {name text : String}
    (h : Fields.string? (sides.foldl
      (fun out side => Assoc.insert side.owner.field (edgeContent now root side records) out) fields) name =
        some text) :
    fields.string? name = some text := by
  induction sides generalizing fields with
  | nil => exact h
  | cons side rest ih =>
    have hinserted := ih h
    by_cases hname : name = side.owner.field
    · rw [hname, Fields.string?, Assoc.lookup_insert_self] at hinserted
      exact absurd hinserted (by simp [edgeContent, Value.string?])
    · rwa [Fields.string?, Assoc.lookup_insert_of_ne hname] at hinserted

/-- Where a node that is put together has an id, it is that of the root, and there is a record of the root. -/
theorem id_of_reduce {schema : Schema} {now : Int64} {root id : String} {records : List Record} {out : Fields}
    (hr : ∀ r ∈ records, r.IsStorable) (h : reduce schema now root records = some out)
    (hid : out.string? Attribute.id = some id) : ∃ n : Node, .node n ∈ records ∧ n.id = id := by
  obtain ⟨n, hn, rfl⟩ := Option.map_eq_some_iff.mp h
  have hmem : .node n ∈ records :=
    (List.mem_filter.mp (mem_nodesOf.mp (List.mem_of_find?_eq_some hn))).1
  have hnode := string?_of_foldl_insert hid
  rw [Node.toOutput_eq (hr _ hmem)] at hnode
  exact ⟨n, hmem, Option.some.inj hnode⟩

/-- After records without a time to live were written, a row that never expires is under the key of each of them. -/
theorem Table.Wrote.exists_lasting {t t' : Table} {records : List Record} (h : t.Wrote t' records)
    (hr : ∀ r ∈ records, r.IsStorable) (hlasting : ∀ r ∈ records, r.ttl = none) {r : Record} (hmem : r ∈ records) :
    ∃ row ∈ t'.rows, row.key = r.key ∧ row.expiry = ⊤ := by
  obtain ⟨row, hrow, hkey⟩ := h.new_keys r hmem
  rcases h.rows row hrow with ⟨other, ho, hattributes⟩ | ⟨-, hother⟩
  · refine ⟨row, hrow, hkey, ?_⟩
    rw [Row.expiry, hattributes, Record.ttl_toAttributes (hr other ho), hlasting other ho]
  · exact absurd hkey.symm (hother r hmem)

/-- In a store without faults an upsert reports no error, the store stays without faults, and where the upsert answers
with a node that has an id a row that never expires is left in the partition of the id. -/
theorem Engine.upsert_lasts {e : Engine} {s : Store} (hs : s.IsFaultless) {ids : IdSource} {now : Instant}
    {typeName id : String} {r : UpsertRequest} {out : Fields}
    (hnode : (e.upsert s ids now typeName r).1.data.node = some out) (hid : out.string? Attribute.id = some id) :
    (e.upsert s ids now typeName r).1.errors = [] ∧ (e.upsert s ids now typeName r).2.1.IsFaultless ∧
      ∃ row ∈ ((e.upsert s ids now typeName r).2.1.tableOf e.table).rows, row.key.id = id ∧ row.expiry = ⊤ := by
  rcases e.upsert_cases s ids now typeName r with ⟨answer, ids', hupsert, hnone⟩ | ⟨branch, rest, ids', hlevel⟩
  · rw [hupsert] at hnode
    exact absurd (hnone.symm.trans hnode) (Option.some_ne_none out).symm
  · have hgrown := (Grower.level_eq_tree hlevel).1
    have hstorable := Branch.isStorable_of_areGrown hgrown
    obtain ⟨s', hupsert, hwrote⟩ := upsert_eq hs hlevel
    rw [hupsert] at hnode ⊢
    obtain ⟨n, hmem, rfl⟩ := id_of_reduce hstorable hnode hid
    obtain ⟨row, hrow, hkey, hexpiry⟩ := hwrote.wrote.exists_lasting hstorable (Branch.ttl_of_areGrown hgrown) hmem
    exact ⟨rfl, hwrote.faultless, row, hrow, congrArg Key.id hkey, hexpiry⟩

/-! ## Deletions -/

/-- Whether a deletion at a time reports no error and that a row was marked, and the node of an id is not found from
then on. -/
def Engine.Removes (e : Engine) (answer : Response DeleteCount × Store) (time : Int64) (id : String) : Prop :=
  answer.1.errors = [] ∧ 1 ≤ answer.1.data.count ∧
    ∀ later, time ≤ later → (e.get answer.2 later id).1 = .failed none (.noNode id)

/-- A deletion that is given no time to live writes its own time. -/
theorem Engine.deletionTtl_eq (e : Engine) (now : Int64) {r : DeleteRequest} (h : r.timeToLive? = none) :
    e.deletionTtl now r = now := by
  have hgrace := Settings.graceMinutes_of_validate e.valid
  have hnonneg : 0 ≤ e.settings.delete.graceMinutes.toInt := Int64.le_iff_toInt_le.mp hgrace
  have hleast : Int64.minValue.toInt ≤ now.toInt := now.le_toInt
  have hmost : 0 ≤ Int64.maxValue.toInt := by decide
  rw [deletionTtl, h, ← Int64.toInt_inj, toInt_effectiveTtl none now hgrace, Option.getD_none]
  omega

/-- In a store without faults a call that names an id and is given no time to live removes what lasts under it. -/
theorem DeleteCall.removes {c : DeleteCall} {s : Store} {id : String} (hs : s.Reached) (hf : s.IsFaultless)
    (hid : id ∈ c.ids) (httl : c.request.timeToLive? = none)
    (hrow : ∃ row ∈ (s.tableOf c.table).rows, row.key.id = id ∧ row.expiry = ⊤) :
    c.engine.Removes (c.answer s) c.now id := by
  have hnow : c.ttl = c.now := c.engine.deletionTtl_eq c.now httl
  have herrors : (c.deletion s).1.errors = [] :=
    softDeleteMany_errors c.queryAllLimit_pos hf.throttled hf.rejected c.ids
  obtain ⟨s', hdeletion, hmarks⟩ := softDeleteMany_marks_all c.queryAllLimit_pos herrors
  have hanswer : c.answer s = (.ok ⟨(s.tableOf c.table).rows.countP (Row.isDeletedByAny c.ids c.ttl c.now)⟩, s') := by
    rcases c.answer_cases s with ⟨hnone, -⟩ | ⟨-, hanswer⟩
    · rw [hnone] at hid
      exact absurd hid List.not_mem_nil
    · rw [hanswer, deletion, hdeletion]
      rfl
  have hok : (c.answer s).1.errors = [] := by rw [hanswer]; rfl
  refine ⟨hok, ?_, fun later hlater => ?_⟩
  · obtain ⟨row, hmem, rfl, hexpiry⟩ := hrow
    rw [hanswer]
    exact List.countP_pos_iff.mpr ⟨row, hmem, Row.isDeletedByAny_iff.mpr ⟨hid, hexpiry ▸ WithTop.coe_lt_top _⟩⟩
  · have hended := hasEnded_answer hok hid (Int64.le_of_eq hnow)
    have hfault : (c.answer s).2.throttledCalls = 0 := by
      rw [hanswer]
      exact Nat.eq_zero_of_le_zero (hf.throttled ▸ hmarks.throttled)
    exact (Engine.hides_of_hasEnded (c.reached_answer hs).every_isRowOf hended hlater).get_only hfault

/-- What an upsert writes can be deleted again. In a store without faults that came about an upsert that answers with a
node of an id reports no error. After it, at any time, where no time to live is given:

1. a deletion of the id, where it is not empty, reports no error and that a row was marked, and the node is not found
   from then on;
2. so does a deletion of several ids that has the id among them, be it empty or not; and
3. a deletion of the id where it is empty reports that it names none, and changes nothing. -/
theorem Engine.upserted_is_deleted {e : Engine} {s : Store} (hs : s.Reached) (hf : s.IsFaultless) {ids : IdSource}
    {now : Instant} {typeName id : String} {r : UpsertRequest} {out : Fields}
    (hnode : (e.upsert s ids now typeName r).1.data.node = some out) (hid : out.string? Attribute.id = some id) :
    (e.upsert s ids now typeName r).1.errors = [] ∧ ∀ (time : Int64) (d : DeleteRequest), d.timeToLive? = none →
      (d.target.id = some id → id ≠ "" → e.Removes (e.delete (e.upsert s ids now typeName r).2.1 time d) time id) ∧
      (id ∈ d.target.ids → e.Removes (e.deleteMany (e.upsert s ids now typeName r).2.1 time d) time id) ∧
      (d.target.id = some id → id = "" →
        e.delete (e.upsert s ids now typeName r).2.1 time d = (.failed {} (.input .noIdToDelete),
          (e.upsert s ids now typeName r).2.1)) := by
  obtain ⟨herrors, hfaultless, hrow⟩ := upsert_lasts hf hnode hid
  have hreached := hs.upsert e ids now typeName r
  refine ⟨herrors, fun time d httl => ⟨fun htarget hne => ?_, fun hmem => ?_, fun htarget hempty => ?_⟩⟩
  · have hnamed : d.target.namedId? = some id := by
      rw [Target.namedId?, htarget]
      exact if_pos (decide_eq_true hne)
    exact DeleteCall.removes (c := ⟨e, time, d, false⟩) hreached hfaultless (Option.mem_toList.mpr hnamed) httl hrow
  · exact DeleteCall.removes (c := ⟨e, time, d, true⟩) hreached hfaultless hmem httl hrow
  · have hnamed : d.target.namedId? = none := by
      rw [Target.namedId?, htarget, hempty]
      rfl
    rw [delete, hnamed]

namespace Sample

/-- The user who came to follow two more is deleted again. -/
theorem eve_is_deleted_again :
    created.Reached ∧ created.IsFaultless ∧
      ∃ out s', users.upsert created (later 0) ⟨7, 0⟩ "User" (joining "eve" "follows") =
        (.ok ⟨some out, []⟩, s', later 2) ∧
        out.string? Attribute.id = some "eve" ∧
        users.Removes (users.delete s' 9 { target := .ofId "eve" }) 9 "eve" := by
  obtain ⟨s', hupsert, -⟩ := Engine.upsert_eq created_isFaultless (r := joining "eve" "follows")
    (@level_joining users.schema users.paired follows "eve" (by decide) (by decide) ⟨7, 0⟩)
  have hnode : ∃ out, reduce users.schema 7 "eve"
    (Branch.recordsOf [joined (users.grower ⟨7, 0⟩).stamp "eve" follows]) = some out ∧
      out.string? Attribute.id = some "eve" := ⟨_, rfl, rfl⟩
  obtain ⟨out, hout, hid⟩ := hnode
  have hanswer : users.upsert created (later 0) ⟨7, 0⟩ "User" (joining "eve" "follows") =
      (.ok ⟨some out, []⟩, s', later 2) := by
    rw [← hout]
    exact hupsert
  have hdata : (users.upsert created (later 0) ⟨7, 0⟩ "User" (joining "eve" "follows")).1.data.node = some out := by
    rw [hanswer]; rfl
  have hremoves := ((Engine.upserted_is_deleted created_reached created_isFaultless hdata hid).2 9
    { target := .ofId "eve" } rfl).1 rfl (by decide)
  rw [hanswer] at hremoves
  exact ⟨created_reached, created_isFaultless, out, s', hanswer, hid, hremoves⟩

/-- A user whose id is empty, with two followers, is written without an error, and is deleted as one of several, but is
none to delete alone. -/
theorem unnamed_is_not_deleted :
    (Store.empty "edge-dataType").Reached ∧ (Store.empty "edge-dataType").IsFaultless ∧
      ∃ out, (users.upsert (Store.empty "edge-dataType") (later 0) ⟨0, 0⟩ "User" (joining "" "followers")).1 =
        .ok ⟨some out, []⟩ ∧
        out.string? Attribute.id = some "" ∧
        users.delete unnamedFollowed 5 { target := .ofId "" } = (.failed {} (.input .noIdToDelete), unnamedFollowed) ∧
        ¬ users.Removes (users.delete unnamedFollowed 5 { target := .ofId "" }) 5 "" ∧
        users.Removes (users.deleteMany unnamedFollowed 5 { target := { ids := [""] } }) 5 "" := by
  have hfaultless : (Store.empty "edge-dataType").IsFaultless := ⟨rfl, rfl, rfl⟩
  obtain ⟨s', hupsert, -⟩ := Engine.upsert_eq hfaultless (r := joining "" "followers")
    (@level_joining users.schema users.paired followers "" (by decide) (by decide) ⟨0, 0⟩)
  have hnode : ∃ out, reduce users.schema 0 "" (Branch.recordsOf [joined (users.grower ⟨0, 0⟩).stamp "" followers]) =
    some out ∧
      out.string? Attribute.id = some "" := ⟨_, rfl, rfl⟩
  obtain ⟨out, hout, hid⟩ := hnode
  have hanswer : (users.upsert (Store.empty "edge-dataType") (later 0) ⟨0, 0⟩ "User" (joining "" "followers")).1 =
      .ok ⟨some out, []⟩ := by
    rw [← hout]
    exact congrArg Prod.fst hupsert
  have hdata := congrArg (fun answer => answer.data.node) hanswer
  obtain ⟨-, hafter, hrow⟩ := Engine.upsert_lasts hfaultless hdata hid
  exact ⟨.empty "edge-dataType", hfaultless, out, hanswer, hid, rfl, fun h => absurd h.1 (List.cons_ne_nil _ _),
    DeleteCall.removes (c := ⟨users, 5, { target := { ids := [""] } }, true⟩) unnamedFollowed_reached hafter
      (List.mem_singleton.mpr rfl) rfl
      hrow⟩

end Sample

end PropertyGraph
