import PropertyGraph.Proofs.Reachable
import PropertyGraph.Proofs.SettingsRules
import PropertyGraph.Proofs.Writing

/-!
# What becomes of each chunk

A batch is throttled, which stores none of it, or rejected, which loses it, or stored, but for its last row where one
is left undone (`Store.batchWrite_cases`). A chunk is a first part that was stored, a second one that is handed back
and a third one that was lost with an error of its own (`ChunkFate`), however these mix along its retries
(`writeChunk_fate`); and so a list of records is, chunk by chunk, stored in its order, handed back, or lost
(`writeRecords_fates`). Every request that is throttled and every row that is left undone uses up one of the faults
that are due (`Store.setbacks`), so that as many retries store everything.
-/

namespace PropertyGraph

/-! ## Rows of records -/

/-- The row of a record. -/
def Record.row? (r : Record) : Option Row := Row.ofAttributes? r.toAttributes

/-- A table with the rows of records, put one after the other. -/
def Table.withRecords (t : Table) (records : List Record) : Table :=
  (records.filterMap Record.row?).foldl Table.insert t

theorem Table.withRecords_append (t : Table) (first others : List Record) :
    t.withRecords (first ++ others) = (t.withRecords first).withRecords others := by
  rw [withRecords, List.filterMap_append, List.foldl_append]
  rfl

/-- A record that can be stored has a row. -/
theorem Record.exists_row? {r : Record} (h : r.IsStorable) :
    ∃ row, r.row? = some row ∧ Store.rowOf r.toAttributes = .ok row ∧
    row.attributes = r.toAttributes ∧ row.key = r.key := by
  obtain ⟨row, hrow, hattributes, hkey⟩ := Store.exists_rowOf h
  refine ⟨row, ?_, hrow, hattributes, hkey⟩
  unfold Store.rowOf at hrow
  split at hrow
  next found hfound => exact hfound.trans (congrArg some (Except.ok.inj hrow))
  · exact absurd hrow (by simp)

/-- Putting the rows of records writes these. -/
theorem Table.wrote_withRecords (t : Table) {records : List Record} (hr : ∀ r ∈ records, r.IsStorable) :
    t.Wrote (t.withRecords records) records := by
  induction records generalizing t with
  | nil => exact .refl t
  | cons r rest ih =>
    obtain ⟨row, hrow, -, hattributes, hkey⟩ := r.exists_row? (hr r (List.mem_cons_self ..))
    rw [withRecords, List.filterMap_cons_some hrow, List.foldl_cons]
    exact (Wrote.insert t hattributes hkey).trans
      (ih (t.insert row) fun other ho => hr other (List.mem_cons_of_mem _ ho))

namespace Store

/-- The rows to be written of records that can be stored. -/
theorem rowsOf_map {records : List Record} (hr : ∀ r ∈ records, r.IsStorable) :
    rowsOf (records.map Record.toAttributes) = .ok (records.filterMap Record.row?) := by
  induction records with
  | nil => rfl
  | cons r rest ih =>
    obtain ⟨row, hrow, hok, -⟩ := r.exists_row? (hr r (List.mem_cons_self ..))
    rw [List.map_cons, rowsOf, hok, List.filterMap_cons_some hrow,
      ih fun other ho => hr other (List.mem_cons_of_mem _ ho)]
    rfl

/-! ## Batches -/

/-- How many of the faults are due that a batch of puts may meet and a later attempt not. -/
def setbacks (s : Store) : Nat := s.undoneRounds + s.throttledCalls

/-- Whether a store came from another one by putting records into a table, whatever requests were throttled or cut
short. -/
structure HasStored (s s' : Store) (table : String) (records : List Record) : Prop where
  index : s'.indexName = s.indexName
  rejected : s'.failingIds = s.failingIds
  undone : s'.undoneRounds ≤ s.undoneRounds
  throttled : s'.throttledCalls ≤ s.throttledCalls
  stored : s'.tableOf table = (s.tableOf table).withRecords records
  others : ∀ other, other ≠ table → s'.tableOf other = s.tableOf other

variable {s s' s'' : Store} {table : String} {records others : List Record}

namespace HasStored

/-- Putting records and then others. -/
theorem trans (h : s.HasStored s' table records) (h' : s'.HasStored s'' table others) :
    s.HasStored s'' table (records ++ others) where
  index := h'.index.trans h.index
  rejected := h'.rejected.trans h.rejected
  undone := Nat.le_trans h'.undone h.undone
  throttled := Nat.le_trans h'.throttled h.throttled
  stored := by rw [h'.stored, h.stored, Table.withRecords_append]
  others other ho := (h'.others other ho).trans (h.others other ho)

theorem setbacks_le (h : s.HasStored s' table records) : s'.setbacks ≤ s.setbacks := Nat.add_le_add h.undone h.throttled

end HasStored

/-- What is taken of a batch is rejected where some partition of it is, and stored otherwise; the rest is handed back.
-/
theorem writeBatch_cases {called : Store} (hcalled : s.HasStored called table []) (hr : ∀ r ∈ records, r.IsStorable)
    (undone : List Fields) :
    ∃ s', s'.batchWriteCalls = called.batchWriteCalls ∧ s'.setbacks ≤ called.setbacks ∧
      ((∃ id, s.rejects id = true ∧ s.HasStored s' table [] ∧
          called.writeBatch table (records.map Record.toAttributes) undone =
            (.error (.store (.writeRejected id)), s')) ∨
        (s.HasStored s' table records ∧ called.writeBatch table (records.map Record.toAttributes) undone =
          (.ok undone, s'))) := by
  unfold writeBatch
  rw [rowsOf_map hr]
  dsimp only
  cases hfind : (records.filterMap Record.row?).find? fun row => called.rejects row.key.id with
  | some row =>
    have hrejects : called.rejects row.key.id = true :=
      List.find?_some (p := fun row : Row => called.rejects row.key.id) hfind
    rw [rejects, hcalled.rejected] at hrejects
    exact ⟨called, rfl, Nat.le_refl _, Or.inl ⟨row.key.id, hrejects, hcalled, rfl⟩⟩
  | none =>
    have hstored : called.HasStored (called.write table (records.filterMap Record.row?)) table records := by
      refine ⟨rfl, rfl, Nat.le_refl _, Nat.le_refl _, tableOf_write .., fun other ho => ?_⟩
      rw [write, tableOf_withTable, if_neg ho]
    exact ⟨called.write table _, rfl, Nat.le_refl _, Or.inr ⟨hcalled.trans hstored, rfl⟩⟩

/-- A batch that is not too large is throttled, or rejected, or stored but for what is left undone of it. -/
theorem batchWrite_cases (s : Store) (table : String) (hr : ∀ r ∈ records, r.IsStorable)
    (hsize : records.length ≤ mostWrites) :
    ∃ s', s'.batchWriteCalls = s.batchWriteCalls + 1 ∧
      ((s.HasStored s' table [] ∧ s'.setbacks < s.setbacks ∧
          s.batchWrite table (records.map Record.toAttributes) = (.error .throttled, s')) ∨
        (∃ id, s.rejects id = true ∧ s.HasStored s' table [] ∧
          s.batchWrite table (records.map Record.toAttributes) = (.error (.store (.writeRejected id)), s')) ∨
        ∃ stored undone, stored ++ undone = records ∧ s.HasStored s' table stored ∧
          (undone ≠ [] → s'.setbacks < s.setbacks) ∧
          s.batchWrite table (records.map Record.toAttributes) = (.ok (undone.map Record.toAttributes), s')) := by
  unfold batchWrite unlessThrottled
  dsimp only
  rw [if_neg (by rw [List.length_map]; exact Nat.not_lt.mpr hsize)]
  by_cases hthrottled : 0 < s.throttledCalls
  · rw [if_pos hthrottled]
    refine ⟨{ s with throttledCalls := s.throttledCalls - 1, batchWriteCalls := s.batchWriteCalls + 1 }, rfl,
      Or.inl ⟨⟨rfl, rfl, Nat.le_refl _, Nat.sub_le .., rfl, fun _ _ => rfl⟩, ?_, rfl⟩⟩
    show s.undoneRounds + (s.throttledCalls - 1) < s.undoneRounds + s.throttledCalls
    omega
  · rw [if_neg hthrottled]
    by_cases hundone : 0 < s.undoneRounds
    · rw [if_pos hundone, ← List.map_dropLast, List.getLast?_map, Option.toList_map]
      let called : Store := { s with undoneRounds := s.undoneRounds - 1, batchWriteCalls := s.batchWriteCalls + 1 }
      have hcalled : s.HasStored called table [] := ⟨rfl, rfl, Nat.sub_le .., Nat.le_refl _, rfl, fun _ _ => rfl⟩
      have hsplit : records.dropLast ++ records.getLast?.toList = records := by
        cases hlast : records.getLast? with
        | none => rw [List.getLast?_eq_none_iff.mp hlast]; rfl
        | some last => exact List.dropLast_append_getLast? last hlast
      obtain ⟨s', hcalls, hsetbacks, ⟨id, hrejects, hstored, hwrite⟩ | ⟨hstored, hwrite⟩⟩ :=
        writeBatch_cases hcalled (fun r h => hr r (List.dropLast_subset _ h))
          (records.getLast?.toList.map Record.toAttributes)
      · exact ⟨s', hcalls, Or.inr (Or.inl ⟨id, hrejects, hstored, hwrite⟩)⟩
      · refine ⟨s', hcalls, Or.inr (Or.inr ⟨_, _, hsplit, hstored, fun _ => Nat.lt_of_le_of_lt hsetbacks ?_, hwrite⟩)⟩
        show s.undoneRounds - 1 + s.throttledCalls < s.undoneRounds + s.throttledCalls
        omega
    · rw [if_neg hundone]
      have hcalled : s.HasStored { s with batchWriteCalls := s.batchWriteCalls + 1 } table [] :=
        ⟨rfl, rfl, Nat.le_refl _, Nat.le_refl _, rfl, fun _ _ => rfl⟩
      obtain ⟨s', hcalls, -, ⟨id, hrejects, hstored, hwrite⟩ | ⟨hstored, hwrite⟩⟩ := writeBatch_cases hcalled hr []
      · exact ⟨s', hcalls, Or.inr (Or.inl ⟨id, hrejects, hstored, hwrite⟩)⟩
      · exact ⟨s', hcalls, Or.inr (Or.inr ⟨records, [], List.append_nil _, hstored, fun h => absurd rfl h, hwrite⟩)⟩

end Store

/-! ## Chunks -/

/-- What became of a chunk: what was stored, what was handed back and what was lost of it, in this order, and the error
that it ended with.
-/
structure ChunkFate where
  stored : List Record
  undone : List Record
  lost : List Record
  fault : Option GraphError

/-- The chunk. -/
def ChunkFate.records (f : ChunkFate) : List Record := f.stored ++ f.undone ++ f.lost

/-- Whether a chunk with so many retries in a store may come to this: what is lost is lost by a rejection, an error is
a rejection or a throttling, and where nothing is rejected as many retries as there are setbacks store everything. -/
structure ChunkFate.IsDue (f : ChunkFate) (s : Store) (retries : Nat) : Prop where
  lost : f.lost ≠ [] → ∃ id, s.rejects id = true ∧ f.fault = some (.store (.writeRejected id))
  fault : ∀ e, f.fault = some e → e = .throttled ∨ ∃ id, s.rejects id = true ∧ e = .store (.writeRejected id)
  whole : s.failingIds = [] → s.setbacks ≤ retries → f.undone = [] ∧ f.fault = none

/-- What a chunk may come to in a later store it may have come to before, with more retries for more setbacks. -/
theorem ChunkFate.IsDue.of_later {f : ChunkFate} {s s' : Store} {retries retries' : Nat} (h : f.IsDue s' retries')
    (hrejected : s'.failingIds = s.failingIds) (hsetbacks : s.setbacks ≤ retries → s'.setbacks ≤ retries') :
    f.IsDue s retries where
  lost hlost := by
    obtain ⟨id, hrejects, hfault⟩ := h.lost hlost
    rw [Store.rejects, hrejected] at hrejects
    exact ⟨id, hrejects, hfault⟩
  fault e he := by
    refine (h.fault e he).imp_right ?_
    rintro ⟨id, hrejects, hfault⟩
    rw [Store.rejects, hrejected] at hrejects
    exact ⟨id, hrejects, hfault⟩
  whole hnone hle := h.whole (hrejected.trans hnone) (hsetbacks hle)

namespace ChunkFate

variable {s : Store} {retries : Nat} {records : List Record}

/-- A chunk may be lost by a rejection. -/
theorem isDue_rejected {id : String} (h : s.rejects id = true) :
    IsDue ⟨[], [], records, some (.store (.writeRejected id))⟩ s retries where
  lost _ := ⟨id, h, rfl⟩
  fault _ he := Or.inr ⟨id, h, (Option.some.inj he).symm⟩
  whole hnone _ := by
    rw [Store.rejects, hnone] at h
    exact absurd h Bool.false_ne_true

theorem isDue_stored : IsDue ⟨records, [], [], none⟩ s retries where
  lost h := absurd rfl h
  fault _ he := absurd he.symm (Option.some_ne_none _)
  whole _ _ := ⟨rfl, rfl⟩

/-- What is left of a chunk may be handed back where no retry is left for a setback. -/
theorem isDue_undone {stored undone : List Record} {fault : Option GraphError}
    (hfault : ∀ e, fault = some e → e = .throttled) (h : retries < s.setbacks) :
    IsDue ⟨stored, undone, [], fault⟩ s retries where
  lost h := absurd rfl h
  fault e he := Or.inl (hfault e he)
  whole _ hle := absurd h (Nat.not_lt.mpr hle)

end ChunkFate

/-- What becomes of a chunk that is not too large, along all its retries: the whole chunk is tried again where it was
throttled, and what was left undone of it behind what was stored. -/
theorem writeChunk_fate (s : Store) (table : String) (retries : Nat) {records : List Record}
    (hr : ∀ r ∈ records, r.IsStorable) (hsize : records.length ≤ Store.mostWrites) :
    ∃ (f : ChunkFate) (s' : Store),
      writeChunk s table retries (records.map Record.toAttributes) =
        (⟨f.undone.map Record.toAttributes, f.fault.toList⟩, s') ∧
      f.records = records ∧ s.HasStored s' table f.stored ∧ s'.batchWriteCalls ≤ s.batchWriteCalls + (retries + 1) ∧
      f.IsDue s retries := by
  induction retries generalizing s records with
  | zero =>
    rw [writeChunk, Store.storage_batchWrite]
    obtain ⟨s', hcalls, ⟨hstored, hfewer, hwrite⟩ | ⟨id, hrejects, hstored, hwrite⟩ |
        ⟨stored, undone, rfl, hstored, hfewer, hwrite⟩⟩ :=
      s.batchWrite_cases table hr hsize <;> rw [hwrite]
    · exact ⟨⟨[], records, [], some .throttled⟩, s', rfl, List.append_nil _, hstored, Nat.le_of_eq hcalls,
        ChunkFate.isDue_undone (fun _ he => (Option.some.inj he).symm) (Nat.zero_lt_of_lt hfewer)⟩
    · exact ⟨⟨[], [], records, some (.store (.writeRejected id))⟩, s', rfl, rfl, hstored, Nat.le_of_eq hcalls,
        ChunkFate.isDue_rejected hrejects⟩
    · cases undone with
      | nil =>
        exact ⟨⟨stored, [], [], none⟩, s', rfl, List.append_nil _, hstored, Nat.le_of_eq hcalls, ChunkFate.isDue_stored⟩
      | cons r rest =>
        exact ⟨⟨stored, r :: rest, [], none⟩, s', rfl, List.append_nil _, hstored, Nat.le_of_eq hcalls,
          ChunkFate.isDue_undone (fun _ he => absurd he.symm (Option.some_ne_none _))
            (Nat.zero_lt_of_lt (hfewer (List.cons_ne_nil _ _)))⟩
  | succ left ih =>
    rw [writeChunk, Store.storage_batchWrite]
    obtain ⟨s', hcalls, ⟨hstored, hfewer, hwrite⟩ | ⟨id, hrejects, hstored, hwrite⟩ |
        ⟨stored, undone, rfl, hstored, hfewer, hwrite⟩⟩ :=
      s.batchWrite_cases table hr hsize <;> rw [hwrite]
    · obtain ⟨f, s'', hrest, hrecords, hothers, hmore, hdue⟩ := ih s' hr hsize
      exact ⟨f, s'', hrest, hrecords, hstored.trans hothers, by omega, hdue.of_later hstored.rejected (by omega)⟩
    · exact ⟨⟨[], [], records, some (.store (.writeRejected id))⟩, s', rfl, rfl,
        hstored, by omega, ChunkFate.isDue_rejected hrejects⟩
    · cases undone with
      | nil => exact ⟨⟨stored, [], [], none⟩, s', rfl, List.append_nil _, hstored, by omega, ChunkFate.isDue_stored⟩
      | cons r rest =>
        rw [List.length_append] at hsize
        obtain ⟨f, s'', hrest, hrecords, hothers, hmore, hdue⟩ :=
          ih s' (fun other ho => hr other (List.mem_append_right _ ho)) (by omega)
        have hsetback := hfewer (List.cons_ne_nil _ _)
        have hlater : f.IsDue s (left + 1) := hdue.of_later hstored.rejected (by omega)
        refine ⟨{ f with stored := stored ++ f.stored }, s'', hrest, ?_, hstored.trans hothers, by omega,
          hlater.lost, hlater.fault, hlater.whole⟩
        rw [← hrecords]
        simp only [ChunkFate.records, List.append_assoc]

/-- What becomes of chunks that are not too large, one after the other. -/
theorem writeChunks_fates (s : Store) (table : String) (retries : Nat) {pieces : List (List Record)}
    (hr : ∀ r ∈ pieces.flatten, r.IsStorable) (hsize : ∀ piece ∈ pieces, piece.length ≤ Store.mostWrites) :
    ∃ (fates : List ChunkFate) (s' : Store),
      writeChunks s table retries (pieces.map (·.map Record.toAttributes)) =
        (⟨(fates.flatMap ChunkFate.undone).map Record.toAttributes, fates.flatMap (·.fault.toList)⟩, s') ∧
      fates.map ChunkFate.records = pieces ∧ s.HasStored s' table (fates.flatMap ChunkFate.stored) ∧
      s'.batchWriteCalls ≤ s.batchWriteCalls + (retries + 1) * pieces.length ∧ ∀ f ∈ fates, f.IsDue s retries := by
  induction pieces generalizing s with
  | nil =>
    exact ⟨[], s, rfl, rfl, ⟨rfl, rfl, Nat.le_refl _, Nat.le_refl _, rfl, fun _ _ => rfl⟩, Nat.le_add_right _ _,
      fun _ hf => absurd hf List.not_mem_nil⟩
  | cons piece rest ih =>
    rw [List.flatten_cons] at hr
    obtain ⟨f, middle, hfirst, hrecords, hstored, hcalls, hdue⟩ :=
      writeChunk_fate s table retries (fun r hmem => hr r (List.mem_append_left _ hmem))
        (hsize piece (List.mem_cons_self ..))
    obtain ⟨fates, s', hothers, hpieces, hstored', hcalls', hdue'⟩ :=
      ih middle (fun r hmem => hr r (List.mem_append_right _ hmem))
        fun other ho => hsize other (List.mem_cons_of_mem _ ho)
    have hlater : ∀ g ∈ fates, g.IsDue s retries := fun g hg =>
      (hdue' g hg).of_later hstored.rejected fun hle => Nat.le_trans hstored.setbacks_le hle
    refine ⟨f :: fates, s', ?_, by rw [List.map_cons, hrecords, hpieces], hstored.trans hstored', ?_,
      List.forall_mem_cons.mpr ⟨hdue, hlater⟩⟩
    · rw [List.map_cons, writeChunks, hfirst]
      dsimp only
      rw [hothers, List.flatMap_cons, List.flatMap_cons, List.map_append]
    · rw [List.length_cons, Nat.mul_succ]
      omega

/-! ## Lists of records -/

namespace ChunkFate

variable {s : Store} {retries : Nat} {fates : List ChunkFate}

/-- Where nothing is rejected, nothing is lost and every error is a throttling. -/
theorem IsDue.of_open {f : ChunkFate} (h : f.IsDue s retries) (hnone : s.failingIds = []) :
    f.lost = [] ∧ ∀ e, f.fault = some e → e = .throttled := by
  have hopen : ∀ id, s.rejects id = false := fun id => by
    rw [Store.rejects, hnone]
    rfl
  refine ⟨?_, fun e he => ?_⟩
  · by_contra hlost
    obtain ⟨id, hrejects, -⟩ := h.lost hlost
    exact Bool.false_ne_true ((hopen id).symm.trans hrejects)
  · rcases h.fault e he with hthrottled | ⟨id, hrejects, -⟩
    · exact hthrottled
    · exact absurd ((hopen id).symm.trans hrejects) Bool.false_ne_true

/-- Where nothing is rejected and there are no more setbacks than retries, all chunks are stored. -/
theorem whole_of_isDue (h : ∀ f ∈ fates, f.IsDue s retries) (hnone : s.failingIds = []) (hle : s.setbacks ≤ retries) :
    fates.flatMap undone = [] ∧ fates.flatMap (·.fault.toList) = [] ∧
    fates.flatMap stored = (fates.map records).flatten := by
  refine ⟨List.flatMap_eq_nil_iff.mpr fun f hf => ((h f hf).whole hnone hle).1,
    List.flatMap_eq_nil_iff.mpr fun f hf => ?_, ?_⟩
  · rw [((h f hf).whole hnone hle).2]
    rfl
  · rw [← List.flatMap_def]
    refine List.flatMap_congr fun f hf => ?_
    rw [records, ((h f hf).whole hnone hle).1, ((h f hf).of_open hnone).1, List.append_nil, List.append_nil]

end ChunkFate

/-- What becomes of records that are written in chunks. -/
theorem writeRecords_fates (s : Store) (table : String) {size : Nat} (hsize : 0 < size ∧ size ≤ Store.mostWrites)
    (retries : Nat) {records : List Record} (hr : ∀ r ∈ records, r.IsStorable) :
    ∃ (fates : List ChunkFate) (s' : Store),
      writeRecords s table size retries records =
        (⟨(fates.flatMap ChunkFate.undone).map Record.toAttributes, fates.flatMap (·.fault.toList)⟩, s') ∧
      fates.map ChunkFate.records = chunks size records ∧ s.HasStored s' table (fates.flatMap ChunkFate.stored) ∧
      s'.batchWriteCalls ≤ s.batchWriteCalls + (retries + 1) * ((records.length + (size - 1)) / size) ∧
      ∀ f ∈ fates, f.IsDue s retries := by
  rw [← length_chunks hsize.1]
  exact writeChunks_fates s table retries (by rwa [chunks_flatten])
    fun piece hpiece => Nat.le_trans (length_le_of_mem_chunks hsize.1 hpiece) hsize.2

/-- Where nothing is rejected and there are no more setbacks than retries, all records are stored in their order. -/
theorem writeRecords_whole {s : Store} (table : String) {size : Nat} (hsize : 0 < size ∧ size ≤ Store.mostWrites)
    {retries : Nat} {records : List Record} (hr : ∀ r ∈ records, r.IsStorable) (hnone : s.failingIds = [])
    (hle : s.setbacks ≤ retries) :
    ∃ s', writeRecords s table size retries records = (⟨[], []⟩, s') ∧ s.HasStored s' table records := by
  obtain ⟨fates, s', hwrite, hfates, hstored, -, hdue⟩ := writeRecords_fates s table hsize retries hr
  obtain ⟨hundone, herrors, hwhole⟩ := ChunkFate.whole_of_isDue hdue hnone hle
  rw [hfates, chunks_flatten] at hwhole
  rw [hundone, herrors] at hwrite
  exact ⟨s', hwrite, hwhole ▸ hstored⟩

/-- In a store without faults records are written whole, in chunks that the store takes. -/
theorem writeRecords_eq {s : Store} (hs : s.IsFaultless) (table : String) {size : Nat}
    (hsize : 0 < size ∧ size ≤ Store.mostWrites) (retries : Nat) {records : List Record}
    (hr : ∀ r ∈ records, r.IsStorable) :
    ∃ s', writeRecords s table size retries records = (⟨[], []⟩, s') ∧ s.Wrote s' table records := by
  have hsetbacks : s.setbacks = 0 := by rw [Store.setbacks, hs.undone, hs.throttled]
  obtain ⟨s', hwrite, hstored⟩ := writeRecords_whole table hsize hr hs.rejected (hsetbacks ▸ Nat.zero_le retries)
  refine ⟨s', hwrite, ⟨?_, ?_, hstored.rejected.trans hs.rejected⟩, hstored.index, ?_, hstored.others⟩
  · exact Nat.eq_zero_of_le_zero (hs.throttled ▸ hstored.throttled)
  · exact Nat.eq_zero_of_le_zero (hs.undone ▸ hstored.undone)
  · rw [hstored.stored]
    exact Table.wrote_withRecords _ hr

/-- In a store without faults an upsert of branches writes all of their records and reports no error. -/
theorem Engine.upsert_eq {e : Engine} {s : Store} (hs : s.IsFaultless) {ids ids' : IdSource} {now : Instant}
    {typeName : String} {r : UpsertRequest} {branch : Branch} {rest : List Branch}
    (h : (e.grower now).level typeName r.create.data r.create.connections (r.target.bind Target.id) ids =
      (.ok (branch :: rest), ids')) :
    ∃ s', e.upsert s ids now typeName r =
        (.ok ⟨reduce e.schema now.seconds branch.node.id (Branch.recordsOf (branch :: rest)), []⟩, s', ids') ∧
      s.Wrote s' e.table (Branch.recordsOf (branch :: rest)) := by
  obtain ⟨s', hwrite, hwrote⟩ := writeRecords_eq hs e.table (Settings.batchSize_of_validate e.valid)
    e.settings.write.retryPolicy.retries
    (Branch.isStorable_of_areGrown (Grower.level_eq_tree h).1)
  refine ⟨s', ?_, hwrote⟩
  rw [upsert_of_level h, hwrite]
  rfl

/-- Writing in chunks loses and duplicates nothing, whatever faults are due. (1) Chunk by chunk, the records are those
that were stored, those that are handed back, in the order of the list, and those that were lost; the table is the old
one with the stored ones put in the order of the list, and the other tables are as they were. (2) A chunk ends with one
error at most, and there are no others; where some of it was lost, it does with the rejection of a partition. (3) No
more batches are asked for than there are attempts for each chunk. (4) Where no partition is rejected, nothing is lost
and every error is a throttling. (5) Where there are then no more batches that are throttled or left undone in part
than there are retries, everything is stored without an error, as it is without faults. -/
theorem writeRecords_accounts (s : Store) (table : String) {size : Nat} (hsize : 0 < size ∧ size ≤ Store.mostWrites)
    (retries : Nat) {records : List Record} (hr : ∀ r ∈ records, r.IsStorable) :
    ∃ (fates : List ChunkFate) (s' : Store),
      writeRecords s table size retries records =
        (⟨(fates.flatMap ChunkFate.undone).map Record.toAttributes, fates.flatMap (·.fault.toList)⟩, s') ∧
      fates.map (fun f => f.stored ++ f.undone ++ f.lost) = chunks size records ∧
      s'.tableOf table = (s.tableOf table).withRecords (fates.flatMap ChunkFate.stored) ∧
      (∀ other, other ≠ table → s'.tableOf other = s.tableOf other) ∧
      (∀ f ∈ fates, f.lost ≠ [] → ∃ id, s.rejects id = true ∧ f.fault = some (.store (.writeRejected id))) ∧
      s'.batchWriteCalls ≤ s.batchWriteCalls + (retries + 1) * ((records.length + (size - 1)) / size) ∧
      (s.failingIds = [] →
        (∀ f ∈ fates, f.lost = [] ∧ ∀ e, f.fault = some e → e = .throttled) ∧
        (s.undoneRounds + s.throttledCalls ≤ retries →
          fates.flatMap ChunkFate.undone = [] ∧ fates.flatMap (·.fault.toList) = [] ∧
          s'.tableOf table = (s.tableOf table).withRecords records ∧
          ∀ other, s'.tableOf other =
            (writeRecords ((s.throttling 0).leavingUndone 0) table size retries records).2.tableOf other)) := by
  obtain ⟨fates, s', hwrite, hfates, hstored, hcalls, hdue⟩ := writeRecords_fates s table hsize retries hr
  refine ⟨fates, s', hwrite, hfates, hstored.stored, hstored.others, fun f hf => (hdue f hf).lost, hcalls, fun hnone =>
    ⟨fun f hf => (hdue f hf).of_open hnone, fun hle => ?_⟩⟩
  obtain ⟨hundone, herrors, hwhole⟩ := ChunkFate.whole_of_isDue hdue hnone hle
  rw [hfates, chunks_flatten] at hwhole
  obtain ⟨ideal, hideal, hsame⟩ := writeRecords_whole (s := (s.throttling 0).leavingUndone 0) table hsize hr hnone
    (Nat.zero_le retries)
  refine ⟨hundone, herrors, hwhole ▸ hstored.stored, fun other => ?_⟩
  rw [hideal]
  by_cases ho : other = table
  · rw [ho, hstored.stored, hwhole, hsame.stored]
    rfl
  · rw [hstored.others other ho, hsame.others other ho]
    rfl

namespace Sample

/-- What is put for the new user is stored in chunks of two, although a request is throttled and another one leaves its
last row undone; were ten requests throttled, each of the three chunks would be tried three times. -/
theorem newcomers_are_stored :
    (∃ s', writeRecords (((Store.empty "edge-dataType").throttling 1).leavingUndone 1) users.table 2 2
        (Branch.recordsOf [newcomers (users.grower ⟨0, 0⟩).stamp]) = (⟨[], []⟩, s') ∧
      s'.tableOf users.table = Table.empty.withRecords (Branch.recordsOf [newcomers (users.grower ⟨0, 0⟩).stamp])) ∧
    ∃ outcome s', writeRecords ((Store.empty "edge-dataType").throttling 10) users.table 2 2
        (Branch.recordsOf [newcomers (users.grower ⟨0, 0⟩).stamp]) = (outcome, s') ∧ s'.batchWriteCalls ≤ 9 := by
  have hr : ∀ r ∈ Branch.recordsOf [newcomers (users.grower ⟨0, 0⟩).stamp], r.IsStorable :=
    Grower.isStorable_of_expand (expand_newcomer ⟨0, 0⟩)
  have hsize : 0 < 2 ∧ 2 ≤ Store.mostWrites := by decide
  obtain ⟨fates, s', hwrite, -, -, -, -, -, hopen⟩ :=
    writeRecords_accounts (((Store.empty "edge-dataType").throttling 1).leavingUndone 1) users.table hsize 2 hr
  obtain ⟨hundone, herrors, htable, -⟩ := (hopen rfl).2 (by decide)
  rw [hundone, herrors] at hwrite
  obtain ⟨_, s'', hthrottled, -, -, -, -, hcalls, -⟩ :=
    writeRecords_accounts ((Store.empty "edge-dataType").throttling 10) users.table hsize 2 hr
  exact ⟨⟨s', hwrite, htable⟩, _, s'', hthrottled, hcalls⟩

end Sample

end PropertyGraph
