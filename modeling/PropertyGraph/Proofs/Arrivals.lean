import Mathlib.Data.Multiset.Filter
import Mathlib.Data.Multiset.MapFold
import Mathlib.Data.Multiset.Replicate
import PropertyGraph.Proofs.Hydration

/-!
# Look-ups whose answers come in any order

The chunks of a look-up are asked for at once, and their answers come in any order (`Store.Gathers`). What is made of
answers depends on their order only in the order of the nodes and of the errors (`Hydrated.ofAnswers`), and the order
of the ids restores that of the nodes: the ids of all chunks together are those that are kept and those that are lost
(`BatchAnswer.kept_perm`), and the nodes are the live ones of those that are kept (`Hydrated.orderByIds_ofAnswers`). So
neither the size of the chunks nor the order of arrival makes a difference (`Store.arrival_is_irrelevant`).
-/

namespace PropertyGraph

/-! ## Answers -/

/-- The ids of a chunk, and the answer to the look-up of it. -/
structure BatchAnswer where
  ids : List String
  answer : Except GraphError (List Fields)

namespace BatchAnswer

/-- The error with which a chunk is answered, where it is. -/
def error? (b : BatchAnswer) : Option GraphError :=
  match b.answer with
  | .ok _ => none
  | .error e => some e

/-- The ids whose chunks are answered without an error. -/
def kept (answers : List BatchAnswer) : List String := (answers.filter fun b => b.error?.isNone).flatMap ids

/-- The ids whose chunks are answered by errors. -/
def lost (answers : List BatchAnswer) : List String := (answers.filter fun b => !b.error?.isNone).flatMap ids

/-- Whether an answer, unless it is an error, has the rows that a table has for the ids. -/
def IsFrom (b : BatchAnswer) (t : Table) : Prop := ∀ rows, b.answer = .ok rows → rows = t.rowsOfNodes b.ids

theorem kept_append_lost (answers : List BatchAnswer) :
    (kept answers ++ lost answers).Perm (answers.map ids).flatten := by
  rw [kept, lost, ← List.flatMap_append, ← List.flatMap_def]
  exact (List.filter_append_perm ..).flatMap_right ids

/-- Of distinct ids those are kept that are not lost, since none is both. -/
theorem kept_perm {answers : List BatchAnswer} {all : List String} (hnodup : all.Nodup)
    (h : (answers.map ids).flatten.Perm all) : (kept answers).Perm (all.filter fun id => id ∉ lost answers) := by
  have hall := (kept_append_lost answers).trans h
  obtain ⟨-, -, hdisjoint⟩ := List.nodup_append'.mp (hall.nodup_iff.mpr hnodup)
  have hkept : (kept answers ++ lost answers).filter (fun id => id ∉ lost answers) = kept answers := by
    have hself : (kept answers).filter (fun id => id ∉ lost answers) = kept answers :=
      List.filter_eq_self.mpr fun id hid => decide_eq_true (hdisjoint hid)
    have hnone : (lost answers).filter (fun id => id ∉ lost answers) = [] :=
      List.filter_eq_nil_iff.mpr fun id hid => by simpa using hid
    rw [List.filter_append, hself, hnone, List.append_nil]
  exact hkept ▸ hall.filter _

/-- The same ids are lost in whatever order the answers come. -/
theorem mem_lost_congr {answers others : List BatchAnswer} (h : answers.Perm others) (id : String) :
    id ∈ lost answers ↔ id ∈ lost others :=
  ((h.filter _).flatMap_right ids).mem_iff

/-- What a store answers to a look-up of ids is from its table. -/
theorem isFrom_batchGet (s : Store) (table : String) (ids : List String) :
    IsFrom ⟨ids, (s.batchGet table (ids.map Key.node)).1⟩ (s.tableOf table) := by
  intro rows hrows
  by_cases hfew : ids.length ≤ Store.mostGets
  · rw [s.batchGet_nodes table hfew, Store.unlessThrottled] at hrows
    split at hrows
    · simp at hrows
    · exact (Except.ok.inj hrows).symm
  · rw [Store.batchGet, if_pos (by simpa using hfew)] at hrows
    simp at hrows

theorem lost_eq_nil {answers : List BatchAnswer} (h : answers.filterMap error? = []) : lost answers = [] := by
  rw [lost, List.filter_eq_nil_iff.mpr fun b hb => by rw [List.filterMap_eq_nil_iff.mp h b hb]; decide]
  rfl

end BatchAnswer

namespace Hydrated

/-- What answers give, in the order in which they arrive. -/
def ofAnswers (now : Int64) : List BatchAnswer → Hydrated
  | [] => ⟨[], []⟩
  | b :: rest => (hydrateAnswer now b.answer).append (ofAnswers now rest)

/-- The errors that answers give, in the order in which they arrive. -/
theorem errors_ofAnswers (now : Int64) (answers : List BatchAnswer) :
    (ofAnswers now answers).errors = answers.flatMap fun b => (hydrateAnswer now b.answer).errors := by
  induction answers with
  | nil => rfl
  | cons b rest ih => rw [ofAnswers, append, ih, List.flatMap_cons]

variable {t : Table} {answers : List BatchAnswer}

/-- The nodes that answers from a table give: the live ones of the ids that are kept. -/
theorem nodes_ofAnswers (now : Int64) (h : ∀ b ∈ answers, b.IsFrom t) :
    (ofAnswers now answers).nodes = (BatchAnswer.kept answers).filterMap (t.liveNode? now) := by
  induction answers with
  | nil => rfl
  | cons b rest ih =>
    obtain ⟨hfirst, hrest⟩ := List.forall_mem_cons.mp h
    obtain ⟨ids, answer⟩ := b
    rw [ofAnswers, append, ih hrest]
    cases answer with
    | error e => rfl
    | ok rows =>
      rw [hydrateAnswer, hfirst rows rfl, nodes_rowsOfNodes, ← List.filterMap_append]
      rfl

/-- The errors that answers from a table with readable nodes give: those by which chunks are answered. -/
theorem errors_ofAnswers_of_isFrom (now : Int64) (ht : t.HasReadableNodes) (h : ∀ b ∈ answers, b.IsFrom t) :
    (ofAnswers now answers).errors = answers.filterMap BatchAnswer.error? := by
  induction answers with
  | nil => rfl
  | cons b rest ih =>
    obtain ⟨hfirst, hrest⟩ := List.forall_mem_cons.mp h
    obtain ⟨ids, answer⟩ := b
    rw [ofAnswers, append, ih hrest]
    cases answer with
    | error e => rfl
    | ok rows =>
      rw [hydrateAnswer, hfirst rows rfl, errors_rowsOfNodes ht]
      rfl

/-- In the order of distinct ids, the answers to chunks of them give the live nodes of the ids that are not lost. -/
theorem orderByIds_ofAnswers (now : Int64) {ids : List String} (hids : ids.Nodup)
    (hanswers : (answers.map BatchAnswer.ids).flatten.Perm ids) (h : ∀ b ∈ answers, b.IsFrom t) :
    orderByIds ids (ofAnswers now answers).nodes =
      (ids.filter fun id => id ∉ BatchAnswer.lost answers).filterMap (t.liveNode? now) := by
  rw [nodes_ofAnswers now h]
  refine orderByIds_eq ((BatchAnswer.kept_perm hids hanswers).filterMap _) ?_
  exact (filterMap_ascending hids fun _ _ => Table.id_of_liveNode?).sublist (List.filter_sublist.filterMap _)

end Hydrated

/-! ## Runs -/

/-- The runs of look-ups of chunks that go on at once, of which some wait, some are answered, and all arrive: whichever
of them is next, one that waits is asked for, or one that is answered arrives. -/
inductive Store.Gathers (table : String) : Store → Multiset (List String) → Multiset BatchAnswer → List BatchAnswer →
    Store → Prop
  | done (s : Store) : Gathers table s 0 0 [] s
  | ask {s s' : Store} {waiting : Multiset (List String)} {answered : Multiset BatchAnswer} {arrived : List BatchAnswer}
      (chunk : List String) (rest : Gathers table (s.batchGet table (chunk.map Key.node)).2 waiting
        (⟨chunk, (s.batchGet table (chunk.map Key.node)).1⟩ ::ₘ answered) arrived s') :
      Gathers table s (chunk ::ₘ waiting) answered arrived s'
  | arrive {s s' : Store} {waiting : Multiset (List String)} {answered : Multiset BatchAnswer}
      {arrived : List BatchAnswer} (b : BatchAnswer) (rest : Gathers table s waiting answered arrived s') :
      Gathers table s waiting (b ::ₘ answered) (b :: arrived) s'

namespace Store.Gathers

variable {s s' : Store} {table : String} {waiting : Multiset (List String)} {answered : Multiset BatchAnswer}
  {arrived : List BatchAnswer}

/-- Each chunk arrives once. -/
theorem ids_eq (h : Gathers table s waiting answered arrived s') :
    (↑(arrived.map BatchAnswer.ids) : Multiset (List String)) = waiting + answered.map BatchAnswer.ids := by
  induction h with
  | done s => rfl
  | ask chunk _ ih => rw [ih, Multiset.map_cons, Multiset.add_cons, Multiset.cons_add]
  | arrive b _ ih => rw [List.map_cons, ← Multiset.cons_coe, ih, Multiset.map_cons, Multiset.add_cons]

theorem tables_eq (h : Gathers table s waiting answered arrived s') : s'.tables = s.tables := by
  induction h with
  | done s => rfl
  | @ask s _ _ _ _ chunk _ ih => exact ih.trans (s.tables_batchGet table _)
  | arrive _ _ ih => exact ih

/-- What arrives, unless it is an error, are the rows of the table, where it is so of what is answered. -/
theorem isFrom (h : Gathers table s waiting answered arrived s')
    (hanswered : ∀ b ∈ answered, b.IsFrom (s.tableOf table)) : ∀ b ∈ arrived, b.IsFrom (s.tableOf table) := by
  induction h with
  | done s => exact nofun
  | @ask s _ _ _ _ chunk _ ih =>
    have htable : (s.batchGet table (chunk.map Key.node)).2.tableOf table = s.tableOf table := by
      rw [tableOf, tables_batchGet]; rfl
    rw [htable] at ih
    exact ih (Multiset.forall_mem_cons.mpr ⟨BatchAnswer.isFrom_batchGet s table chunk, hanswered⟩)
  | arrive b _ ih =>
    obtain ⟨hb, hothers⟩ := Multiset.forall_mem_cons.mp hanswered
    exact List.forall_mem_cons.mpr ⟨hb, ih hothers⟩

/-- Where nothing is answered at the start, all that arrives, unless it is an error, are the rows of the table. -/
theorem isFrom_of_start (h : Gathers table s waiting 0 arrived s') : ∀ b ∈ arrived, b.IsFrom (s.tableOf table) :=
  h.isFrom fun b hb => absurd hb (Multiset.notMem_zero b)

/-- Of chunks that are not too large, as many are answered by errors as requests are due to be throttled, since each
such request leaves one less to be throttled; these errors are throttlings. -/
theorem errors_eq (h : Gathers table s waiting answered arrived s')
    (hfew : ∀ chunk ∈ waiting, chunk.length ≤ mostGets) :
    (↑(arrived.filterMap BatchAnswer.error?) : Multiset GraphError) =
      answered.filterMap BatchAnswer.error? + Multiset.replicate (min s.throttledCalls (Multiset.card waiting))
        .throttled := by
  induction h with
  | done s => simp
  | @ask s _ waiting answered _ chunk _ ih =>
    obtain ⟨hchunk, hothers⟩ := Multiset.forall_mem_cons.mp hfew
    have hrest := ih hothers
    rw [s.batchGet_nodes table hchunk, unlessThrottled] at hrest
    by_cases hdue : 0 < s.throttledCalls
    · have hmin : min s.throttledCalls (Multiset.card waiting + 1) =
          min (s.throttledCalls - 1) (Multiset.card waiting) + 1 := by omega
      have hb : BatchAnswer.error? ⟨chunk, .error .throttled⟩ = some .throttled := rfl
      rw [if_pos hdue] at hrest
      dsimp only at hrest
      rw [Multiset.filterMap_cons_some _ _ _ hb] at hrest
      rw [hrest, Multiset.card_cons, hmin, Multiset.replicate_succ, Multiset.add_cons, Multiset.cons_add]
    · have hb : BatchAnswer.error? ⟨chunk, .ok ((s.tableOf table).rowsOfNodes chunk)⟩ = none := rfl
      have hnone : s.throttledCalls = 0 := Nat.eq_zero_of_not_pos hdue
      rw [if_neg hdue] at hrest
      dsimp only at hrest
      rw [Multiset.filterMap_cons_none _ _ hb] at hrest
      rw [hrest, hnone, Nat.zero_min, Nat.zero_min]
  | arrive b _ ih =>
    have hrest := ih hfew
    cases hb : b.error? with
    | none => rw [List.filterMap_cons_none hb, Multiset.filterMap_cons_none _ _ hb, hrest]
    | some e =>
      rw [List.filterMap_cons_some hb, Multiset.filterMap_cons_some _ _ _ hb, ← Multiset.cons_coe, hrest,
        Multiset.cons_add]

end Store.Gathers

/-- To look up chunks one after the other is such a run, in which they arrive in their order. -/
theorem hydrateChunks_gathers (s : Store) (table : String) (now : Int64) (pieces : List (List String)) :
    ∃ arrived, s.Gathers table ↑pieces 0 arrived (hydrateChunks s table now pieces).2 ∧
      arrived.map BatchAnswer.ids = pieces ∧
      (hydrateChunks s table now pieces).1 = .ofAnswers now arrived := by
  induction pieces generalizing s with
  | nil => exact ⟨[], .done s, rfl, rfl⟩
  | cons piece rest ih =>
    obtain ⟨arrived, hgathers, hids, hydrated⟩ := ih (s.batchGet table (piece.map Key.node)).2
    refine ⟨⟨piece, (s.batchGet table (piece.map Key.node)).1⟩ :: arrived, .ask piece (.arrive _ hgathers), ?_, ?_⟩
    · rw [List.map_cons, hids]
    · rw [hydrateChunks, Store.storage_batchGet, Hydrated.ofAnswers, ← hydrated]

/-- Look-ups that go on at once find the same nodes in whatever order their answers arrive. (1) Whatever answers the
chunks of distinct ids come to, if only those that are no errors have the rows of the table, the order of the ids makes
of the nodes that they give the live ones of the ids, in the order of the ids, but for those of chunks that are
answered by errors. The errors are those by which chunks are answered, if every row of a node stands for a record. In
any other order of arrival, the nodes in the order of the ids and the errors but for their order are the same. (2) In
every run each chunk arrives once, with such an answer, the tables stay as they are, and as many chunks are answered by
errors as requests are due to be throttled. Where none are, and every row of a node stands for a record, there are no
errors, and the order of the ids makes of the nodes the live ones of all ids. (3) Some run has any order of arrival,
namely that in which the chunks are looked up one after the other. -/
theorem Store.arrival_is_irrelevant (s : Store) (table : String) (now : Int64) {size : Nat}
    (hsize : 0 < size ∧ size ≤ mostGets) {ids : List String} (hids : ids.Nodup) :
    (∀ answers : List BatchAnswer, (answers.map BatchAnswer.ids).Perm (chunks size ids) →
      (∀ b ∈ answers, b.IsFrom (s.tableOf table)) →
      orderByIds ids (Hydrated.ofAnswers now answers).nodes =
        (ids.filter fun id => id ∉ BatchAnswer.lost answers).filterMap ((s.tableOf table).liveNode? now) ∧
      ((s.tableOf table).HasReadableNodes →
        (Hydrated.ofAnswers now answers).errors = answers.filterMap BatchAnswer.error?) ∧
      ∀ arrived : List BatchAnswer, arrived.Perm answers →
        orderByIds ids (Hydrated.ofAnswers now arrived).nodes = orderByIds ids (Hydrated.ofAnswers now answers).nodes ∧
        (Hydrated.ofAnswers now arrived).errors.Perm (Hydrated.ofAnswers now answers).errors) ∧
    (∀ (arrived : List BatchAnswer) (s' : Store), s.Gathers table ↑(chunks size ids) 0 arrived s' →
      (arrived.map BatchAnswer.ids).Perm (chunks size ids) ∧ (∀ b ∈ arrived, b.IsFrom (s.tableOf table)) ∧
      s'.tables = s.tables ∧
      arrived.filterMap BatchAnswer.error? = List.replicate (min s.throttledCalls (chunks size ids).length) .throttled ∧
      (s.throttledCalls = 0 → (s.tableOf table).HasReadableNodes →
        (Hydrated.ofAnswers now arrived).errors = [] ∧
        orderByIds ids (Hydrated.ofAnswers now arrived).nodes = ids.filterMap ((s.tableOf table).liveNode? now))) ∧
    ∀ order : List (List String), order.Perm (chunks size ids) →
      ∃ arrived, s.Gathers table ↑(chunks size ids) 0 arrived (hydrateChunks s table now order).2 ∧
        arrived.map BatchAnswer.ids = order ∧ (hydrateChunks s table now order).1 = .ofAnswers now arrived := by
  have hflatten : ∀ answers : List BatchAnswer, (answers.map BatchAnswer.ids).Perm (chunks size ids) →
      (answers.map BatchAnswer.ids).flatten.Perm ids := by
    intro answers hchunks
    have hperm := hchunks.flatten
    rwa [chunks_flatten] at hperm
  refine ⟨fun answers hchunks hfrom => ⟨?_, fun ht => ?_, fun arrived harrived => ⟨?_, ?_⟩⟩,
    fun arrived s' h => ?_, fun order horder => ?_⟩
  · exact Hydrated.orderByIds_ofAnswers now hids (hflatten answers hchunks) hfrom
  · exact Hydrated.errors_ofAnswers_of_isFrom now ht hfrom
  · have hsame := Hydrated.orderByIds_ofAnswers now hids (hflatten arrived ((harrived.map _).trans hchunks))
      fun b hb => hfrom b (harrived.mem_iff.mp hb)
    rw [hsame, Hydrated.orderByIds_ofAnswers now hids (hflatten answers hchunks) hfrom]
    congr 1
    exact List.filter_congr fun id _ => by simp only [BatchAnswer.mem_lost_congr harrived]
  · rw [Hydrated.errors_ofAnswers, Hydrated.errors_ofAnswers]
    exact harrived.flatMap_right _
  · have hchunks : (arrived.map BatchAnswer.ids).Perm (chunks size ids) :=
      Multiset.coe_eq_coe.mp (h.ids_eq.trans (Multiset.add_zero _))
    have hfrom := h.isFrom_of_start
    have hfew : ∀ chunk ∈ (↑(chunks size ids) : Multiset (List String)), chunk.length ≤ mostGets := fun chunk hchunk =>
      Nat.le_trans (length_le_of_mem_chunks hsize.1 hchunk) hsize.2
    have herrors : arrived.filterMap BatchAnswer.error? = List.replicate (min s.throttledCalls (chunks size ids).length)
        .throttled := by
      have hall := h.errors_eq hfew
      rw [Multiset.filterMap_zero, Multiset.zero_add, Multiset.coe_card, ← Multiset.coe_replicate] at hall
      exact List.perm_replicate.mp (Multiset.coe_eq_coe.mp hall)
    refine ⟨hchunks, hfrom, h.tables_eq, herrors, fun hfault ht => ?_⟩
    rw [hfault, Nat.zero_min, List.replicate_zero] at herrors
    refine ⟨(Hydrated.errors_ofAnswers_of_isFrom now ht hfrom).trans herrors, ?_⟩
    rw [Hydrated.orderByIds_ofAnswers now hids (hflatten arrived hchunks) hfrom, BatchAnswer.lost_eq_nil herrors]
    congr 1
    exact List.filter_eq_self.mpr fun id _ => by simp
  · obtain ⟨arrived, hgathers, harrived, hydrated⟩ := hydrateChunks_gathers s table now order
    exact ⟨arrived, Multiset.coe_eq_coe.mpr horder ▸ hgathers, harrived, hydrated⟩

namespace Sample

/-- A node with no fields. -/
def bare (id : String) (ttl : Option Int64) : Node := ⟨id, "Guest", default, ttl, []⟩

/-- A store with three nodes, one of which expires early. -/
def lodgers : Store :=
  Store.holding "edge-dataType" "t" [.node (bare "ann" none), .node (bare "bob" (some 5)), .node (bare "cid" (some 20))]

theorem lodgers_isReadable : lodgers.IsReadable := by
  refine Store.isReadable_holding _ _ ?_
  intro r hr
  simp only [List.mem_cons, List.not_mem_nil, or_false] at hr
  rcases hr with rfl | rfl | rfl <;> exact ⟨List.nodup_nil, nofun⟩

/-- Whichever of two chunks of ids arrives first, the live nodes are found in the order of the ids, without the expired
one and the one that is not there. Where one request is throttled, one chunk is lost. -/
theorem lodgers_are_found :
    (∀ arrived s', lodgers.Gathers "t" ↑(chunks 2 ["cid", "bob", "ann", "dan"]) 0 arrived s' →
      (Hydrated.ofAnswers 10 arrived).errors = [] ∧
      (orderByIds ["cid", "bob", "ann", "dan"] (Hydrated.ofAnswers 10 arrived).nodes).map Node.id = ["cid", "ann"]) ∧
    (∃ arrived s', lodgers.Gathers "t" ↑(chunks 2 ["cid", "bob", "ann", "dan"]) 0 arrived s' ∧
      arrived.map BatchAnswer.ids = [["ann", "dan"], ["cid", "bob"]]) ∧
    ∀ arrived s', (lodgers.throttling 1).Gathers "t" ↑(chunks 2 ["cid", "bob", "ann", "dan"]) 0 arrived s' →
      arrived.filterMap BatchAnswer.error? = [.throttled] := by
  have hsize : 0 < 2 ∧ 2 ≤ Store.mostGets := by decide
  have hids : ["cid", "bob", "ann", "dan"].Nodup := by decide
  have hchunks : chunks 2 ["cid", "bob", "ann", "dan"] = [["cid", "bob"], ["ann", "dan"]] := by decide +kernel
  have hfound : (["cid", "bob", "ann", "dan"].filterMap ((lodgers.tableOf "t").liveNode? 10)).map Node.id =
      ["cid", "ann"] := by
    decide +kernel
  obtain ⟨-, hruns, horders⟩ := lodgers.arrival_is_irrelevant "t" 10 hsize hids
  obtain ⟨-, hthrottled, -⟩ := (lodgers.throttling 1).arrival_is_irrelevant "t" 10 hsize hids
  refine ⟨fun arrived s' h => ?_, ?_, fun arrived s' h => ?_⟩
  · obtain ⟨-, -, -, -, hall⟩ := hruns arrived s' h
    obtain ⟨herrors, hnodes⟩ := hall rfl (lodgers_isReadable "t").hasReadableNodes
    exact ⟨herrors, hnodes ▸ hfound⟩
  · obtain ⟨arrived, hgathers, harrived, -⟩ := horders [["ann", "dan"], ["cid", "bob"]]
      (by rw [hchunks]; exact .swap ..)
    exact ⟨arrived, _, hgathers, harrived⟩
  · obtain ⟨-, -, -, herrors, -⟩ := hthrottled arrived s' h
    rw [herrors, hchunks]
    rfl

end Sample

end PropertyGraph
