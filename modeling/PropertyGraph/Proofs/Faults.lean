import PropertyGraph.Filter.Reader
import PropertyGraph.Proofs.Hydration
import PropertyGraph.Proofs.Traversal

/-!
# Which errors are reported

An error is outward where it is not about a row or a text that cannot be read: the caller is at fault, or the store
refuses a request (`GraphError.IsOutward`). In a readable store every answer to a request is sound: it leaves the store
readable and reports outward errors only (`Store.IsSound`), and so do the traversals, look-ups and deletions that are
made of requests.
-/

namespace PropertyGraph

/-- Whether an error is about something else than a row or a text that cannot be read. -/
def GraphError.IsOutward (fault : GraphError) : Prop := fault.kind ≠ .internal ∧ fault.kind ≠ .json

theorem GraphError.isOutward_input (fault : InputFault) : (GraphError.input fault).IsOutward := ⟨nofun, nofun⟩

theorem GraphError.isOutward_store (fault : StoreFault) : (GraphError.store fault).IsOutward := ⟨nofun, nofun⟩

theorem GraphError.isOutward_cursor (fault : CursorFault) : (GraphError.cursor fault).IsOutward := ⟨nofun, nofun⟩

theorem GraphError.isOutward_throttled : GraphError.throttled.IsOutward := ⟨nofun, nofun⟩

theorem GraphError.isOutward_noRow (key : Key) : (GraphError.noRow key).IsOutward := ⟨nofun, nofun⟩

theorem GraphError.isOutward_noNode (id : String) : (GraphError.noNode id).IsOutward := ⟨nofun, nofun⟩

/-- Whether an answer leaves its store readable, and is no error but an outward one. -/
structure Store.IsSound {α : Type} (answer : Except GraphError α × Store) : Prop where
  readable : answer.2.IsReadable
  outward : ∀ fault, answer.1 = .error fault → fault.IsOutward

/-! ## Requests -/

/-- An error of two steps is one of the first, or one of the second. -/
theorem error_of_bind {α β : Type} {x : Except GraphError α} {f : α → Except GraphError β} {fault : GraphError}
    (h : x >>= f = .error fault) : x = .error fault ∨ ∃ a, f a = .error fault := by
  cases x with
  | error e => exact Or.inl (congrArg Except.error (Except.error.inj h))
  | ok a => exact Or.inr ⟨a, h⟩

theorem bind_eq_ok_iff {α β : Type} {x : Except GraphError α} {f : α → Except GraphError β} {b : β} :
    x >>= f = .ok b ↔ ∃ a, x = .ok a ∧ f a = .ok b := by
  cases x with
  | error e => simp [bind, Except.bind]
  | ok a => simp [bind, Except.bind]

/-- A continuation key is refused only for an attribute that it lacks. -/
theorem View.missing_of_startPosition {view : View} {key : StartKey} {fault : GraphError}
    (h : view.startPosition key = .error fault) : ∃ name, fault = .cursor (.missing name) := by
  have htext : ∀ name, text key name = .error fault → ∃ name, fault = .cursor (.missing name) := by
    intro name h
    rw [text] at h
    split at h
    · simp at h
    · exact ⟨name, (Except.error.inj h).symm⟩
  cases view with
  | table =>
    rw [startPosition] at h
    obtain h | ⟨_, h⟩ := error_of_bind h
    · exact htext _ h
    obtain h | ⟨_, h⟩ := error_of_bind h
    · exact htext _ h
    · exact absurd h (by simp [pure, Except.pure])
  | edgeIndex =>
    rw [startPosition] at h
    obtain h | ⟨_, h⟩ := error_of_bind h
    · exact htext _ h
    obtain h | ⟨_, h⟩ := error_of_bind h
    · exact htext _ h
    obtain h | ⟨_, h⟩ := error_of_bind h
    · exact htext _ h
    · exact absurd h (by simp [pure, Except.pure])

/-- A query of something that is not there is refused outwardly. -/
theorem Query.isOutward_of_resolve {q : Query} {indexName : String} {fault : GraphError}
    (h : q.resolve indexName = .error fault) : fault.IsOutward := by
  rw [resolve] at h
  split at h
  next e he =>
    rw [view.eq_def] at he
    split at he
    · simp at he
    · split at he
      · simp at he
      · exact Except.error.inj h ▸ Except.error.inj he ▸ GraphError.isOutward_store _
  next view _ =>
    split at h
    · exact Except.error.inj h ▸ GraphError.isOutward_store _
    · split at h
      · exact Except.error.inj h ▸ GraphError.isOutward_store _
      · cases hstart : q.start view with
        | ok start => simp [hstart, Except.map] at h
        | error e =>
          rw [hstart] at h
          obtain rfl := Except.error.inj h
          rw [start.eq_def] at hstart
          split at hstart
          · simp at hstart
          next key _ =>
            cases hposition : view.startPosition key with
            | ok position => simp [hposition, Except.map] at hstart
            | error e' =>
              rw [hposition] at hstart
              obtain ⟨name, rfl⟩ := View.missing_of_startPosition hposition
              exact Except.error.inj hstart ▸ GraphError.isOutward_cursor _

/-- A query of a table is refused outwardly. -/
theorem Table.isOutward_of_query {t : Table} {indexName : String} {q : Query} {fault : GraphError}
    (h : t.query indexName q = .error fault) : fault.IsOutward := by
  rw [query] at h
  cases hq : q.resolve indexName with
  | error e =>
    rw [hq] at h
    exact Except.error.inj h ▸ Query.isOutward_of_resolve hq
  | ok found => simp [hq, Except.map] at h

/-- The rows of a page are rows of the table. -/
theorem Table.mem_of_query {t : Table} {indexName : String} {q : Query} {page : Page} {row : Row}
    (h : t.query indexName q = .ok page) (hrow : row ∈ page.rows) : row ∈ t.rows := by
  rw [query] at h
  cases hq : q.resolve indexName with
  | error e => simp [hq, Except.map] at h
  | ok found =>
    rw [hq] at h
    rw [← Except.ok.inj h] at hrow
    exact (mem_ahead.mp (List.mem_of_mem_take (List.mem_filter.mp hrow).1)).1

/-- The answer to a query is that of the table, or an empty page where the table is not there. -/
theorem Store.query_cases (s : Store) (table : String) (q : Query) :
    (s.query table q).1 = (s.tableOf table).query s.indexName q ∨ (s.query table q).1 = .ok Page.empty := by
  rw [query, tableOf]
  cases s.tables.get? table with
  | some t => exact Or.inl rfl
  | none => exact Or.inr rfl

namespace Store.IsReadable

variable {s : Store}

/-- The answer to a query is sound, and its rows are rows of the table. -/
theorem query (h : s.IsReadable) (table : String) (q : Query) :
    IsSound (s.query table q) ∧
    ∀ page, (s.query table q).1 = .ok page → ∀ row ∈ page.rows, row.attributes.IsRecord := by
  refine ⟨⟨h, fun fault hfault => ?_⟩, fun page hpage row hrow => ?_⟩
  · rcases s.query_cases table q with hq | hq
    · exact Table.isOutward_of_query (hq ▸ hfault)
    · simp [hq] at hfault
  · rcases s.query_cases table q with hq | hq
    · exact h table row (Table.mem_of_query (hq ▸ hpage) hrow)
    · rw [hq] at hpage
      rw [← Except.ok.inj hpage] at hrow
      exact absurd hrow List.not_mem_nil

/-- A request has a sound answer where it has one when it is not throttled. -/
theorem unlessThrottled {α : Type} (h : s.IsReadable) {answer : Except GraphError α × Store}
    (hanswer : IsSound answer) : IsSound (s.unlessThrottled answer) := by
  unfold Store.unlessThrottled
  split
  · exact ⟨h, fun fault hf => Except.error.inj hf ▸ GraphError.isOutward_throttled⟩
  · exact hanswer

/-- The answer to a batch of look-ups is sound, and its rows are rows of the table. -/
theorem batchGet (h : s.IsReadable) (table : String) (keys : List Key) :
    IsSound (s.batchGet table keys) ∧ ∀ rows, (s.batchGet table keys).1 = .ok rows →
      ∀ attributes ∈ rows, attributes.IsRecord := by
  unfold Store.batchGet
  split
  · exact ⟨⟨h, fun fault hf => Except.error.inj hf ▸ GraphError.isOutward_store _⟩, nofun⟩
  · refine ⟨h.unlessThrottled ⟨h, nofun⟩, fun rows hrows attributes ha => ?_⟩
    unfold Store.unlessThrottled at hrows
    split at hrows
    · simp at hrows
    · rw [← Except.ok.inj hrows] at ha
      obtain ⟨key, -, hkey⟩ := List.mem_filterMap.mp ha
      obtain ⟨row, hrow, rfl⟩ := Option.map_eq_some_iff.mp hkey
      exact h table row (Table.key_of_get? hrow).1

end Store.IsReadable

/-! ## Traversals -/

/-- A text is refused as a cursor only for being none. -/
theorem Cursor.fault_of_decodeOptional {cursor : Option String} {fault : GraphError}
    (h : decodeOptional cursor = .error fault) : ∃ refused, fault = .cursor refused := by
  rw [decodeOptional.eq_def] at h
  split at h
  · simp at h
  next text =>
    split at h
    · simp at h
    · rw [decode] at h
      split at h
      · exact ⟨_, (Except.error.inj h).symm⟩
      · split at h
        · exact ⟨_, (Except.error.inj h).symm⟩
        · simp [Except.map] at h

theorem Cursor.isOutward_of_decodeOptional {cursor : Option String} {fault : GraphError}
    (h : decodeOptional cursor = .error fault) : fault.IsOutward := by
  obtain ⟨_, rfl⟩ := fault_of_decodeOptional h
  exact GraphError.isOutward_cursor _

namespace EdgeReader

variable {s : Store}

/-- One page of edges is read soundly. -/
theorem isSound_fetch (r : EdgeReader) (hs : s.IsReadable) (q : Query) : Store.IsSound (r.fetch s q) := by
  obtain ⟨hsound, hrows⟩ := hs.query r.table q
  refine ⟨hsound.readable, fun fault hf => ?_⟩
  simp only [fetch, fetched, Store.storage_query] at hf
  cases hq : (s.query r.table q).1 with
  | error e =>
    rw [hq] at hf
    exact Except.error.inj hf ▸ hsound.outward e hq
  | ok page =>
    rw [hq] at hf
    dsimp only at hf
    rw [liveEdges_eq (hrows page hq)] at hf
    simp [Except.map] at hf

/-- One page of neighbors is read soundly. -/
theorem isSound_page (r : EdgeReader) (hs : s.IsReadable) (root : String) (side : EdgeSide) (limit : Nat)
    (cursor : Option String) : Store.IsSound (r.page s root side limit cursor) := by
  rw [page]
  split
  next e he => exact ⟨hs, fun fault hf => Except.error.inj hf ▸ Cursor.isOutward_of_decodeOptional he⟩
  next start _ =>
    have hfetch := isSound_fetch r hs (r.query root side limit start)
    refine ⟨hfetch.readable, fun fault hf => ?_⟩
    dsimp only at hf
    cases ha : (r.fetch s (r.query root side limit start)).1 with
    | error e =>
      rw [ha] at hf
      exact Except.error.inj hf ▸ hfetch.outward e ha
    | ok f => simp [ha, Except.map] at hf

/-- The edges of all pages of a query are read soundly. -/
theorem isSound_edgesFrom (r : EdgeReader) (s : Store) (q : Query) (hs : s.IsReadable) :
    Store.IsSound (r.edgesFrom s q) := by
  induction s, q using @EdgeReader.edgesFrom.induct Store _ r with
  | case1 s q e he =>
    have hfetch := isSound_fetch r hs q
    rw [edgesFrom_error he]
    exact ⟨hfetch.readable, fun fault hf => Except.error.inj hf ▸ hfetch.outward e he⟩
  | case2 s q f hf hnone =>
    rw [edgesFrom_last hf hnone]
    exact ⟨(isSound_fetch r hs q).readable, nofun⟩
  | case3 s q f hf next hnext _ _ _ ih =>
    have hrest := ih (isSound_fetch r hs q).readable
    rw [edgesFrom_next hf hnext]
    refine ⟨hrest.readable, fun fault hfault => ?_⟩
    cases ha : (r.edgesFrom (r.fetch s q).2 { q with startAfter := some next }).1 with
    | error e =>
      rw [ha] at hfault
      exact Except.error.inj hfault ▸ hrest.outward e ha
    | ok edges => simp [ha, Except.map] at hfault

/-- All neighbors are read soundly. -/
theorem isSound_all (r : EdgeReader) (hs : s.IsReadable) (root : String) (side : EdgeSide) (limit : Nat)
    (cursor : Option String) : Store.IsSound (r.all s root side limit cursor) := by
  rw [all]
  split
  next e he => exact ⟨hs, fun fault hf => Except.error.inj hf ▸ Cursor.isOutward_of_decodeOptional he⟩
  next start _ =>
    have hedges := isSound_edgesFrom r s (r.query root side limit start) hs
    refine ⟨hedges.readable, fun fault hf => ?_⟩
    dsimp only at hf
    cases ha : (r.edgesFrom s (r.query root side limit start)).1 with
    | error e =>
      rw [ha] at hf
      exact Except.error.inj hf ▸ hedges.outward e ha
    | ok f => simp [ha, Except.map] at hf

/-- Pages are read soundly until one has a neighbor. -/
theorem isSound_firstNeighbors (r : EdgeReader) (side : EdgeSide) (s : Store) (q : Query) (hs : s.IsReadable) :
    Store.IsSound (r.firstNeighbors s side q) := by
  induction s, q using @EdgeReader.firstNeighbors.induct Store _ r side with
  | case1 s q e he =>
    have hfetch := isSound_fetch r hs q
    rw [firstNeighbors_error he]
    exact ⟨hfetch.readable, fun fault hf => Except.error.inj hf ▸ hfetch.outward e he⟩
  | case2 s q f hf hnone =>
    rw [firstNeighbors_stop hf (Or.inl hnone)]
    exact ⟨(isSound_fetch r hs q).readable, nofun⟩
  | case3 s q f hf next hnext hempty ih =>
    rw [firstNeighbors_next hf hnext hempty]
    exact ih (isSound_fetch r hs q).readable
  | case4 s q f hf next hnext hsome =>
    rw [firstNeighbors_stop hf (Or.inr hsome)]
    exact ⟨(isSound_fetch r hs q).readable, nofun⟩

end EdgeReader

/-! ## Look-ups -/

/-- A look-up of chunks reports outward errors only. -/
theorem isOutward_of_hydrateChunks {s : Store} (hs : s.IsReadable) (table : String) (now : Int64)
    (pieces : List (List String)) :
    (hydrateChunks s table now pieces).2.IsReadable ∧ ∀ fault ∈ (hydrateChunks s table now pieces).1.errors,
      fault.IsOutward := by
  induction pieces generalizing s with
  | nil => exact ⟨hs, nofun⟩
  | cons piece rest ih =>
    obtain ⟨hsound, hrows⟩ := hs.batchGet table (piece.map Key.node)
    obtain ⟨hreadable, hothers⟩ := ih hsound.readable
    refine ⟨hreadable, fun fault hf => ?_⟩
    rw [hydrateChunks, Store.storage_batchGet] at hf
    dsimp only [Hydrated.append] at hf
    rcases List.mem_append.mp hf with hf | hf
    · cases ha : (s.batchGet table (piece.map Key.node)).1 with
      | error e =>
        rw [ha] at hf
        exact List.mem_singleton.mp hf ▸ hsound.outward e ha
      | ok rows =>
        rw [ha, hydrateAnswer, hydrateRows_eq now (hrows rows ha)] at hf
        exact absurd hf List.not_mem_nil
    · exact hothers fault hf

/-! ## Deletions -/

/-- Marking rows reports outward errors only. -/
theorem isOutward_of_markRows {s : Store} (table : String) (ttl : Int64) (rows : List Row) :
    ∀ fault ∈ (markRows s table ttl rows).1.errors, fault.IsOutward := by
  have hmark : ∀ (s : Store) (key : Key) (fault : GraphError), (s.updateTtl table key ttl).1 = .error fault →
      fault.IsOutward := by
    intro s key fault h
    unfold Store.updateTtl Store.unlessThrottled at h
    split at h
    · exact Except.error.inj h ▸ GraphError.isOutward_throttled
    · split at h
      · exact Except.error.inj h ▸ GraphError.isOutward_store _
      · split at h
        · simp at h
        · exact Except.error.inj h ▸ GraphError.isOutward_noRow _
  induction rows generalizing s with
  | nil => exact nofun
  | cons row rest ih =>
    intro fault hf
    rw [markRows, Store.storage_updateTtl] at hf
    dsimp only [Deleted.append] at hf
    rcases List.mem_append.mp hf with hf | hf
    · cases ha : (s.updateTtl table row.key ttl).1 with
      | error e =>
        rw [ha] at hf
        exact List.mem_singleton.mp hf ▸ hmark s row.key e ha
      | ok u =>
        rw [ha] at hf
        exact absurd hf List.not_mem_nil
    · exact ih fault hf

/-! ## Filters -/

section Filter

variable {fault : GraphError}

theorem input_of_readBound {field : String} {j : Json} (h : readBound field j = .error fault) :
    ∃ refused, fault = .input refused := by
  rw [readBound.eq_def] at h
  split at h
  · simp at h
  · simp at h
  · exact ⟨_, (Except.error.inj h).symm⟩

/-- An operand that does not suit its comparison is refused as input. -/
theorem input_of_readOperand {field : String} {c : Comparison} {j : Json} (h : readOperand field c j = .error fault) :
    ∃ refused, fault = .input refused := by
  rw [readOperand.eq_def] at h
  split at h
  · split at h
    · obtain h | ⟨_, h⟩ := error_of_bind h
      · exact input_of_readBound h
      obtain h | ⟨_, h⟩ := error_of_bind h
      · exact input_of_readBound h
      · exact absurd h (by simp [pure, Except.pure])
    · exact ⟨_, (Except.error.inj h).symm⟩
  · split at h
    · simp at h
    · simp at h
    · simp at h
    · simp at h
    · exact ⟨_, (Except.error.inj h).symm⟩

/-- A comparison that is not known, or has no operand for it, is refused as input. -/
theorem input_of_readPredicates {field : String} {members : List (String × Json)}
    (h : readPredicates field members = .error fault) : ∃ refused, fault = .input refused := by
  induction members with
  | nil => simp [readPredicates] at h
  | cons member rest ih =>
    rw [readPredicates] at h
    split at h
    · exact ⟨_, (Except.error.inj h).symm⟩
    · split at h
      · exact ih h
      · obtain h | ⟨_, h⟩ := error_of_bind h
        · exact input_of_readOperand h
        obtain h | ⟨_, h⟩ := error_of_bind h
        · exact ih h
        · exact absurd h (by simp [pure, Except.pure])

/-- A field filter that is none is refused as input. -/
theorem input_of_readFieldFilters {members : List (String × Json)} (h : readFieldFilters members = .error fault) :
    ∃ refused, fault = .input refused := by
  induction members with
  | nil => simp [readFieldFilters] at h
  | cons member rest ih =>
    rw [readFieldFilters] at h
    split at h
    · exact ih h
    · split at h
      · exact ⟨_, (Except.error.inj h).symm⟩
      · obtain h | ⟨_, h⟩ := error_of_bind h
        · exact input_of_readPredicates h
        obtain h | ⟨_, h⟩ := error_of_bind h
        · exact ih h
        · exact absurd h (by simp [pure, Except.pure])

/-- A filter that is none is refused as input. -/
theorem Filter.input_of_ofJson {j : Json} (h : Filter.ofJson j = .error fault) : ∃ refused, fault = .input refused := by
  rw [ofJson] at h
  split at h
  · exact ⟨_, (Except.error.inj h).symm⟩
  next fields _ =>
    cases hread : readFieldFilters fields.entries with
    | ok filters => simp [hread, Except.map] at h
    | error e =>
      rw [hread] at h
      exact Except.error.inj h ▸ input_of_readFieldFilters hread

theorem Filter.isOutward_of_ofJson {j : Json} (h : Filter.ofJson j = .error fault) : fault.IsOutward := by
  obtain ⟨_, rfl⟩ := input_of_ofJson h
  exact GraphError.isOutward_input _

end Filter

end PropertyGraph
