import Mathlib.Data.List.Nodup
import PropertyGraph.Batch.Hydrate
import PropertyGraph.Proofs.Readable

/-!
# What a look-up of many nodes finds

In a readable table, and where no request is throttled, a look-up of ids in chunks finds for each id the live node that
is stored under it, in the order of the ids and without errors (`hydrate_eq`), whatever the size of the chunks is.
Putting these nodes in the order of distinct ids leaves them as they are (`orderByIds_filterMap`), and however else
they come, it gives them back so (`orderByIds_eq`).
-/

namespace PropertyGraph

/-! ## Live nodes -/

/-- The node for which attributes stand, where it is live. -/
def Fields.liveNode? (now : Int64) (attributes : Fields) : Option Node :=
  match Record.ofAttributes attributes with
  | .ok (.node n) => if isOver n.ttl now then none else some n
  | _ => none

/-- The live node that a table has under an id. -/
def Table.liveNode? (t : Table) (now : Int64) (id : String) : Option Node :=
  ((t.get? (Key.node id)).map Row.attributes).bind (Fields.liveNode? now)

/-- The row that a table has under a key has that key. -/
theorem Table.key_of_get? {t : Table} {key : Key} {row : Row} (h : t.get? key = some row) :
    row ∈ t.rows ∧ row.key = key := by
  have hkey : (row.key == key) = true := List.find?_some (p := fun row : Row => row.key == key) h
  exact ⟨List.mem_of_find?_eq_some h, eq_of_beq hkey⟩

/-- Attributes have a live node where they stand for that node and the node has not expired. -/
theorem Fields.liveNode?_eq_some_iff {now : Int64} {attributes : Fields} {n : Node} :
    attributes.liveNode? now = some n ↔ Record.ofAttributes attributes = .ok (.node n) ∧ isOver n.ttl now = false := by
  unfold liveNode?
  split
  next m hm =>
    rw [hm, Except.ok.injEq, Record.node.injEq, Option.ite_none_left_eq_some, Option.some.injEq, Bool.not_eq_true]
    constructor
    · rintro ⟨hlive, rfl⟩
      exact ⟨rfl, hlive⟩
    · rintro ⟨rfl, hlive⟩
      exact ⟨hlive, rfl⟩
  next hne =>
    simp only [reduceCtorEq, false_iff, not_and]
    intro h
    exact absurd h (hne n)

/-- A table has under its id the live node that a row with its key stands for. -/
theorem Table.liveNode?_of_mem {t : Table} {now : Int64} {row : Row} {n : Node} (hrow : row ∈ t.rows)
    (hkey : row.key = Key.node n.id) (hread : Record.ofAttributes row.attributes = .ok (.node n))
    (hlive : isOver n.ttl now = false) : t.liveNode? now n.id = some n := by
  have hget : t.get? (Key.node n.id) = some row := by
    have hfound := get?_of_mem hrow
    rwa [hkey] at hfound
  rw [liveNode?, hget, Option.map_some, Option.bind_some]
  exact Fields.liveNode?_eq_some_iff.mpr ⟨hread, hlive⟩

/-- The node that a table has under an id has that id. -/
theorem Table.id_of_liveNode? {t : Table} {now : Int64} {id : String} {n : Node} (h : t.liveNode? now id = some n) :
    n.id = id := by
  obtain ⟨attributes, hattributes, hnode⟩ := Option.bind_eq_some_iff.mp h
  obtain ⟨row, hrow, rfl⟩ := Option.map_eq_some_iff.mp hattributes
  have hkey := (Table.key_of_get? hrow).2
  obtain ⟨hid, htype, -⟩ := Record.ofAttributes_node_iff.mp (Fields.liveNode?_eq_some_iff.mp hnode).1
  have hcarries := row.carries
  rw [Fields.key?, hid, htype, Option.some.injEq, hkey] at hcarries
  exact congrArg Key.id hcarries

/-- The node that a table has under an id has not expired. -/
theorem Table.live_of_liveNode? {t : Table} {now : Int64} {id : String} {n : Node} (h : t.liveNode? now id = some n) :
    isOver n.ttl now = false := by
  obtain ⟨attributes, -, hnode⟩ := Option.bind_eq_some_iff.mp h
  exact (Fields.liveNode?_eq_some_iff.mp hnode).2

/-- Whether every row of a node in a table stands for a record. -/
def Table.HasReadableNodes (t : Table) : Prop := ∀ row ∈ t.rows, row.key.dataType = nodeMarker → row.attributes.IsRecord

theorem Table.IsReadable.hasReadableNodes {t : Table} (h : t.IsReadable) : t.HasReadableNodes :=
  fun row hrow _ => h row hrow

/-! ## Looking up -/

/-- The nodes that one row gives. -/
theorem nodes_hydrateRow (now : Int64) (attributes : Fields) :
    (hydrateRow now attributes).nodes = (attributes.liveNode? now).toList := by
  rw [hydrateRow, Fields.liveNode?]
  match Record.ofAttributes attributes with
  | .ok (.node n) => dsimp only; cases isOver n.ttl now <;> rfl
  | .ok (.edge _) => rfl
  | .error _ => rfl

/-- The nodes that rows give: the live ones for which they stand. -/
theorem nodes_hydrateRows (now : Int64) (rows : List Fields) :
    (hydrateRows now rows).nodes = rows.filterMap (Fields.liveNode? now) := by
  induction rows with
  | nil => rfl
  | cons attributes rest ih =>
    rw [hydrateRows, Hydrated.append, ih, nodes_hydrateRow, List.filterMap_cons]
    cases attributes.liveNode? now <;> rfl

/-- Rows that stand for records give no errors. -/
theorem errors_hydrateRows (now : Int64) {rows : List Fields} (h : ∀ attributes ∈ rows, attributes.IsRecord) :
    (hydrateRows now rows).errors = [] := by
  induction rows with
  | nil => rfl
  | cons attributes rest ih =>
    obtain ⟨⟨record, hrecord⟩, hrest⟩ := List.forall_mem_cons.mp h
    have hfirst : (hydrateRow now attributes).errors = [] := by
      rw [hydrateRow, hrecord]
      match record with
      | .node n => dsimp only; cases isOver n.ttl now <;> rfl
      | .edge _ => rfl
    rw [hydrateRows, Hydrated.append, hfirst, ih hrest, List.nil_append]

theorem hydrateRows_eq (now : Int64) {rows : List Fields} (h : ∀ attributes ∈ rows, attributes.IsRecord) :
    hydrateRows now rows = ⟨rows.filterMap (Fields.liveNode? now), []⟩ :=
  congrArg₂ Hydrated.mk (nodes_hydrateRows now rows) (errors_hydrateRows now h)

/-- The rows that a table has for the nodes of some ids. -/
def Table.rowsOfNodes (t : Table) (ids : List String) : List Fields :=
  ids.filterMap fun id => (t.get? (Key.node id)).map Row.attributes

theorem nodes_rowsOfNodes (t : Table) (now : Int64) (ids : List String) :
    (hydrateRows now (t.rowsOfNodes ids)).nodes = ids.filterMap (t.liveNode? now) := by
  rw [nodes_hydrateRows, Table.rowsOfNodes, List.filterMap_filterMap]
  rfl

/-- The rows of nodes give no errors where they stand for records. -/
theorem errors_rowsOfNodes {t : Table} (h : t.HasReadableNodes) (now : Int64) (ids : List String) :
    (hydrateRows now (t.rowsOfNodes ids)).errors = [] := by
  refine errors_hydrateRows now fun attributes ha => ?_
  obtain ⟨id, -, hget⟩ := List.mem_filterMap.mp ha
  obtain ⟨row, hrow, rfl⟩ := Option.map_eq_some_iff.mp hget
  obtain ⟨hmem, hkey⟩ := Table.key_of_get? hrow
  exact h row hmem (congrArg Key.dataType hkey)

theorem Store.tables_batchGet (s : Store) (table : String) (keys : List Key) :
    (s.batchGet table keys).2.tables = s.tables := by
  unfold batchGet unlessThrottled
  split_ifs <;> rfl

/-- What a batch of look-ups comes to that is not too large: it is throttled, or answers with the rows of its nodes. -/
theorem Store.batchGet_nodes (s : Store) (table : String) {ids : List String} (h : ids.length ≤ mostGets) :
    s.batchGet table (ids.map Key.node) = s.unlessThrottled (.ok ((s.tableOf table).rowsOfNodes ids), s) := by
  rw [batchGet, if_neg (by rw [List.length_map]; exact Nat.not_lt.mpr h), List.filterMap_map]
  rfl

/-- What a look-up of chunks finds, none of which is too long. -/
theorem hydrateChunks_eq {s : Store} {table : String} (now : Int64) (hr : (s.tableOf table).HasReadableNodes)
    (hfault : s.throttledCalls = 0) {pieces : List (List String)}
    (hp : ∀ piece ∈ pieces, piece.length ≤ Store.mostGets) :
    hydrateChunks s table now pieces = (⟨pieces.flatten.filterMap ((s.tableOf table).liveNode? now), []⟩, s) := by
  induction pieces with
  | nil => rfl
  | cons piece rest ih =>
    obtain ⟨hpiece, hrest⟩ := List.forall_mem_cons.mp hp
    have hthrottled : ¬ 0 < s.throttledCalls := hfault ▸ Nat.lt_irrefl 0
    rw [hydrateChunks, Store.storage_batchGet, s.batchGet_nodes table hpiece, Store.unlessThrottled, if_neg hthrottled]
    dsimp only
    rw [ih hrest, hydrateAnswer, Hydrated.append, nodes_rowsOfNodes, errors_rowsOfNodes hr, List.flatten_cons,
      List.filterMap_append, List.nil_append]

/-- A look-up finds the live nodes of the ids in their order, whatever the size of its chunks is. -/
theorem hydrate_eq {s : Store} {table : String} {size : Nat} (now : Int64) (ids : List String)
    (hr : (s.tableOf table).IsReadable) (hfault : s.throttledCalls = 0) (hs : 0 < size)
    (hmost : size ≤ Store.mostGets) :
    hydrate s table size now ids = (⟨ids.filterMap ((s.tableOf table).liveNode? now), []⟩, s) := by
  have hp : ∀ piece ∈ chunks size ids, piece.length ≤ Store.mostGets := fun piece hpiece =>
    Nat.le_trans (length_le_of_mem_chunks hs hpiece) hmost
  rw [hydrate, hydrateChunks_eq now hr.hasReadableNodes hfault hp, chunks_flatten]

/-! ## The order of ids -/

/-- Of distinct ids each stands at its own place. -/
theorem lastPlace_getElem {ids : List String} (h : ids.Nodup) {i : Nat} (hi : i < ids.length) :
    lastPlace ids ids[i] = i := by
  have hplace : ids.reverse.findIdx? (· == ids[i]) = some (ids.length - 1 - i) := by
    rw [List.findIdx?_eq_some_iff_getElem]
    refine ⟨by rw [List.length_reverse]; omega, ?_, fun j hj => ?_⟩
    · rw [List.getElem_reverse, beq_iff_eq]
      congr 1
      omega
    · rw [List.getElem_reverse, beq_iff_eq, List.getElem_inj h]
      omega
  rw [lastPlace, hplace]
  dsimp only
  omega

theorem lastPlace_ascending {ids : List String} (h : ids.Nodup) : ids.Pairwise (lastPlace ids · < lastPlace ids ·) := by
  rw [List.pairwise_iff_getElem]
  intro i j hi hj hij
  rw [lastPlace_getElem h hi, lastPlace_getElem h hj]
  exact hij

theorem insertByRank_perm {α : Type} (rank : α → Nat) (a : α) (l : List α) : (insertByRank rank a l).Perm (a :: l) := by
  induction l with
  | nil => rfl
  | cons b rest ih =>
    rw [insertByRank]
    split
    · rfl
    · exact (ih.cons b).trans (.swap a b rest)

/-- An insertion keeps an order of ranks. -/
theorem insertByRank_ascending {α : Type} {rank : α → Nat} (a : α) {l : List α} (h : l.Pairwise (rank · ≤ rank ·)) :
    (insertByRank rank a l).Pairwise (rank · ≤ rank ·) := by
  induction l with
  | nil => exact List.pairwise_singleton ..
  | cons b rest ih =>
    obtain ⟨hfirst, hrest⟩ := List.pairwise_cons.mp h
    rw [insertByRank]
    split
    next hbefore =>
      have hrank := Nat.le_of_lt hbefore
      exact List.pairwise_cons.mpr ⟨List.forall_mem_cons.mpr ⟨hrank, fun c hc => Nat.le_trans hrank (hfirst c hc)⟩, h⟩
    next hafter =>
      refine List.pairwise_cons.mpr ⟨fun c hc => ?_, ih hrest⟩
      rcases List.mem_cons.mp ((insertByRank_perm rank a rest).mem_iff.mp hc) with rfl | hc
      · exact Nat.le_of_not_lt hafter
      · exact hfirst c hc

/-- Elements that are inserted one after the other are put in the order of their ranks. -/
theorem foldl_insertByRank {α : Type} (rank : α → Nat) {before : List α} (h : before.Pairwise (rank · ≤ rank ·))
    (l : List α) :
    (l.foldl (fun ordered a => insertByRank rank a ordered) before).Perm (before ++ l) ∧
      (l.foldl (fun ordered a => insertByRank rank a ordered) before).Pairwise (rank · ≤ rank ·) := by
  induction l generalizing before with
  | nil => exact ⟨.of_eq (List.append_nil before).symm, h⟩
  | cons a rest ih =>
    obtain ⟨hperm, hordered⟩ := ih (insertByRank_ascending a h)
    exact ⟨hperm.trans (((insertByRank_perm rank a before).append_right rest).trans List.perm_middle.symm), hordered⟩

/-- The order of ids loses and adds no node. -/
theorem orderByIds_perm (ids : List String) (nodes : List Node) : (orderByIds ids nodes).Perm nodes := by
  have hperm :=
    ((foldl_insertByRank Prod.fst List.Pairwise.nil (nodes.map fun n => (lastPlace ids n.id, n))).1).map Prod.snd
  rwa [List.nil_append, List.map_map, Function.comp_def, List.map_id'] at hperm

/-- In the order of ids, places ascend. -/
theorem orderByIds_ascending (ids : List String) (nodes : List Node) :
    (orderByIds ids nodes).Pairwise (lastPlace ids ·.id ≤ lastPlace ids ·.id) := by
  obtain ⟨hperm, hordered⟩ := foldl_insertByRank Prod.fst List.Pairwise.nil (nodes.map fun n => (lastPlace ids n.id, n))
  have hplace : ∀ placed ∈ (nodes.map fun n => (lastPlace ids n.id, n)).foldl
    (fun ordered n => insertByRank Prod.fst n ordered) [],
      placed.1 = lastPlace ids placed.2.id := by
    intro placed hplaced
    obtain ⟨n, -, rfl⟩ := List.mem_map.mp (hperm.mem_iff.mp hplaced)
    rfl
  rw [orderByIds, List.pairwise_map]
  exact hordered.imp_of_mem fun {a b} ha hb hle => by rwa [← hplace a ha, ← hplace b hb]

/-- However nodes of distinct places come, the order of ids is the same. -/
theorem orderByIds_eq {ids : List String} {nodes ordered : List Node} (hperm : nodes.Perm ordered)
    (h : ordered.Pairwise (lastPlace ids ·.id < lastPlace ids ·.id)) : orderByIds ids nodes = ordered := by
  have hsame := (orderByIds_perm ids nodes).trans hperm
  refine List.Perm.eq_of_pairwise (fun a b ha hb hle hge => ?_) (orderByIds_ascending ids nodes)
    (h.imp Nat.le_of_lt) hsame
  exact List.inj_on_of_nodup_map (f := fun n : Node => lastPlace ids n.id) (List.pairwise_map.mpr (h.imp Nat.ne_of_lt))
    (hsame.mem_iff.mp ha) hb (Nat.le_antisymm hle hge)

/-- Nodes that were found for distinct ids, in their order, stand at ascending places. -/
theorem filterMap_ascending {ids : List String} (h : ids.Nodup) {find : String → Option Node}
    (hfind : ∀ id n, find id = some n → n.id = id) :
    (ids.filterMap find).Pairwise (lastPlace ids ·.id < lastPlace ids ·.id) := by
  rw [List.pairwise_filterMap]
  refine (lastPlace_ascending h).imp fun {a b} hlt n hn m hm => ?_
  rwa [hfind a n hn, hfind b m hm]

/-- Nodes that were found for distinct ids, in their order, stay in that order. -/
theorem orderByIds_filterMap {ids : List String} (h : ids.Nodup) {find : String → Option Node}
    (hfind : ∀ id n, find id = some n → n.id = id) : orderByIds ids (ids.filterMap find) = ids.filterMap find :=
  orderByIds_eq (.refl _) (filterMap_ascending h hfind)

end PropertyGraph
