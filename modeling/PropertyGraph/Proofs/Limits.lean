import PropertyGraph.Proofs.ChunkFates
import PropertyGraph.Proofs.Faults

/-!
# The limits of a store

A store takes only so many rows or keys in one request, and reads pages that are not empty, of the table or of the edge
index that it has (`StoreRequest.IsWithin`). A store that has the edge index and rejects nothing takes every request
within these limits, and is such a store after it (`StoreRequest.IsWithin.isTaken`). What it leaves undone of a batch is
within them again.
-/

namespace PropertyGraph

/-! ## Requests within the limits -/

/-- Whether a query reads at least one row, by the partition of the table or by that of the edge index of a name. -/
structure Query.IsWithin (q : Query) (indexName : String) : Prop where
  limit : 1 ≤ q.limit
  partition : q.index = none ∧ q.partitionKey = Attribute.id ∨
    q.index = some indexName ∧ q.partitionKey = Attribute.edge

/-- Whether a request is within the limits of a store that has an edge index of a name: puts are of rows of records, of
at least one and at most so many in a batch, a batch of look-ups has at least one key and at most so many, and a query
is within its own limits. -/
def StoreRequest.IsWithin (indexName : String) : StoreRequest → Prop
  | put _ attributes _ => ∃ record : Record, record.IsStorable ∧ record.toAttributes = attributes
  | batchWrite _ batch =>
    (1 ≤ batch.length ∧ batch.length ≤ Store.mostWrites) ∧
      ∃ records : List Record, (∀ record ∈ records, record.IsStorable) ∧ records.map Record.toAttributes = batch
  | batchGet _ keys => 1 ≤ keys.length ∧ keys.length ≤ Store.mostGets
  | query _ q => q.IsWithin indexName
  | updateTtl .. => True

section queries

variable {indexName : String} {q : Query}

theorem Query.IsWithin.after (h : q.IsWithin indexName) (next : StartKey) :
    { q with startAfter := some next }.IsWithin indexName :=
  ⟨h.limit, h.partition⟩

/-- The query of the edges along a side is within the limits. -/
theorem EdgeReader.isWithin_query (r : EdgeReader) (root : String) (side : EdgeSide) {limit : Nat} (hl : 0 < limit)
    (start : Option StartKey) : (r.query root side limit start).IsWithin r.indexName := by
  refine ⟨hl, ?_⟩
  rw [query]
  cases side.principal with
  | true => exact Or.inl ⟨rfl, rfl⟩
  | false => exact Or.inr ⟨rfl, rfl⟩

theorem isWithin_deletionQuery (id : String) {pageLimit : Nat} (hl : 0 < pageLimit) (ttl now : Int64) :
    (deletionQuery id pageLimit ttl now).IsWithin indexName :=
  ⟨hl, Or.inl ⟨rfl, rfl⟩⟩

/-- A query within the limits asks for something that there is. -/
theorem Query.IsWithin.resolve (h : q.IsWithin indexName) :
    ∃ view, q.resolve indexName = (q.start view).map (view, ·) := by
  have hview : ∃ view : View, q.view indexName = .ok view ∧ q.partitionKey = view.partitionKey := by
    rcases h.partition with ⟨hindex, hkey⟩ | ⟨hindex, hkey⟩
    · exact ⟨.table, by rw [view, hindex], hkey⟩
    · exact ⟨.edgeIndex, by rw [view, hindex]; exact if_pos rfl, hkey⟩
  obtain ⟨view, hview, hkey⟩ := hview
  refine ⟨view, ?_⟩
  rw [Query.resolve, hview]
  dsimp only
  rw [if_neg (not_not_intro hkey), if_neg (Nat.ne_of_gt h.limit)]

/-- A query within the limits is refused for its continuation key only. -/
theorem Query.IsWithin.resolve_ne_store (h : q.IsWithin indexName) (fault : StoreFault) :
    q.resolve indexName ≠ .error (.store fault) := by
  obtain ⟨view, hresolve⟩ := h.resolve
  rw [hresolve, start]
  cases q.startAfter with
  | none => simp [Except.map]
  | some key =>
    dsimp only
    cases hposition : view.startPosition key with
    | ok position => simp [Except.map]
    | error e =>
      obtain ⟨name, rfl⟩ := View.missing_of_startPosition hposition
      simp [Except.map]

end queries

/-! ## What a store takes -/

/-- Whether a store has an edge index of a name, and rejects puts and markings in no partition. -/
structure Store.IsOpen (s : Store) (indexName : String) : Prop where
  index : s.indexName = indexName
  rejected : s.failingIds = []

/-- Whether an answer is no refusal, and leaves the store open. -/
structure Store.IsTaken {α : Type} (indexName : String) (answer : Except GraphError α × Store) : Prop where
  isOpen : answer.2.IsOpen indexName
  taken : ∀ fault, answer.1 ≠ .error (.store fault)

namespace Store.IsOpen

variable {indexName : String} {s : Store}

theorem rejects (h : s.IsOpen indexName) (id : String) : s.rejects id = false := by
  rw [Store.rejects, h.rejected]
  rfl

/-- A request is taken where it is when it is not throttled. -/
theorem unlessThrottled {α : Type} (h : s.IsOpen indexName) {answer : Except GraphError α × Store}
    (hanswer : IsTaken indexName answer) : IsTaken indexName (s.unlessThrottled answer) := by
  unfold Store.unlessThrottled
  split
  · exact ⟨⟨h.index, h.rejected⟩, by simp⟩
  · exact hanswer

/-- A put of the row of a record is taken. -/
theorem put (h : s.IsOpen indexName) (table : String) {record : Record} (hr : record.IsStorable)
    (condition : PutCondition) : IsTaken indexName (s.put table record.toAttributes condition) := by
  obtain ⟨row, hrow, -⟩ := exists_rowOf hr
  refine h.unlessThrottled ?_
  rw [hrow]
  dsimp only
  rw [h.rejects, if_neg Bool.false_ne_true]
  split
  · exact ⟨h, by simp⟩
  · exact ⟨⟨h.index, h.rejected⟩, by simp⟩

/-- A batch of the rows of records that is not too large is taken. -/
theorem batchWrite (h : s.IsOpen indexName) (table : String) {records : List Record}
    (hr : ∀ record ∈ records, record.IsStorable) (hsize : records.length ≤ mostWrites) :
    IsTaken indexName (s.batchWrite table (records.map Record.toAttributes)) := by
  have hopen : ∀ {s' written}, s.HasStored s' table written → s'.IsOpen indexName := fun hstored =>
    ⟨hstored.index.trans h.index, hstored.rejected.trans h.rejected⟩
  obtain ⟨s', -, ⟨hstored, -, hwrite⟩ | ⟨id, hrejects, -⟩ | ⟨_, _, -, hstored, -, hwrite⟩⟩ :=
    s.batchWrite_cases table hr hsize
  · exact hwrite ▸ ⟨hopen hstored, by simp⟩
  · rw [h.rejects] at hrejects
    exact absurd hrejects Bool.false_ne_true
  · exact hwrite ▸ ⟨hopen hstored, by simp⟩

theorem batchGet (h : s.IsOpen indexName) (table : String) {keys : List Key} (hsize : keys.length ≤ mostGets) :
    IsTaken indexName (s.batchGet table keys) := by
  rw [Store.batchGet, if_neg (Nat.not_lt.mpr hsize)]
  exact h.unlessThrottled ⟨h, by simp⟩

/-- A query within the limits is taken. -/
theorem query (h : s.IsOpen indexName) (table : String) {q : Query} (hq : q.IsWithin indexName) :
    IsTaken indexName (s.query table q) := by
  refine ⟨⟨h.index, h.rejected⟩, fun fault hfault => ?_⟩
  rcases s.query_cases table q with hanswer | hanswer
  · rw [hanswer, Table.query, h.index] at hfault
    cases hresolve : q.resolve indexName with
    | ok found => simp [hresolve, Except.map] at hfault
    | error e =>
      rw [hresolve] at hfault
      exact hq.resolve_ne_store fault (hresolve.trans (congrArg Except.error (Except.error.inj hfault)))
  · simp [hanswer] at hfault

/-- The setting of a time to live is taken. -/
theorem updateTtl (h : s.IsOpen indexName) (table : String) (key : Key) (ttl : Int64) :
    IsTaken indexName (s.updateTtl table key ttl) := by
  refine h.unlessThrottled ?_
  rw [h.rejects, if_neg Bool.false_ne_true]
  split
  · exact ⟨⟨h.index, h.rejected⟩, by simp⟩
  · exact ⟨h, by simp⟩

end Store.IsOpen

section requests

variable {indexName table : String} {s : Store}

/-- An open store takes every request that is within its limits. -/
theorem StoreRequest.IsWithin.isTaken {r : StoreRequest} (hr : r.IsWithin indexName) (h : s.IsOpen indexName) :
    Store.IsTaken indexName (r.ask s) := by
  cases r with
  | put table attributes condition =>
    obtain ⟨record, hrecord, rfl⟩ := hr
    exact h.put table hrecord condition
  | batchWrite table batch =>
    obtain ⟨⟨-, hsize⟩, records, hrecords, rfl⟩ := hr
    rw [List.length_map] at hsize
    exact h.batchWrite table hrecords hsize
  | batchGet table keys => exact h.batchGet table hr.2
  | query table q => exact h.query table hr
  | updateTtl table key ttl => exact h.updateTtl table key ttl

/-- What is left undone of a batch is within the limits where the batch is, unless nothing is left. -/
theorem StoreRequest.IsWithin.undone {batch undone : List Fields} (h : (batchWrite table batch).IsWithin indexName)
    (hwrite : (s.batchWrite table batch).1 = .ok undone) (hne : undone ≠ []) :
    (batchWrite table undone).IsWithin indexName := by
  obtain ⟨⟨-, hsize⟩, records, hrecords, rfl⟩ := h
  rw [List.length_map] at hsize
  obtain ⟨s', -, ⟨-, -, hcase⟩ | ⟨id, -, -, hcase⟩ | ⟨stored, left, rfl, -, -, hcase⟩⟩ :=
    s.batchWrite_cases table hrecords hsize
  · simp [hcase] at hwrite
  · simp [hcase] at hwrite
  · rw [hcase] at hwrite
    obtain rfl := Except.ok.inj hwrite
    refine ⟨⟨List.length_pos_iff.mpr hne, ?_⟩, left, fun r hr => hrecords r (List.mem_append_right _ hr), rfl⟩
    rw [List.length_append] at hsize
    rw [List.length_map]
    omega

end requests

end PropertyGraph
