import PropertyGraph.Cursor
import PropertyGraph.Store.Table

/-!
# Queries

A query reads one partition in order, either of the table itself or of the edge index, in which the rows of edges are
ordered by their far ends first. It looks at no more rows than its limit allows and then leaves out those that have
expired; when rows of the key condition are left, it names the attributes of the last row it looked at, and a later
query continues after that key. The key is named also when its row is left out, so that a page without rows need not be
the last one.

`Table.remaining_lt` says that each continuation leaves fewer rows to read; every loop over pages ends by it.
-/

namespace PropertyGraph

/-- What a query reads: the table, or the edge index on it. -/
inductive View where
  | table | edgeIndex
  deriving DecidableEq, Repr

namespace View

/-- The attribute that is the partition in a view. -/
def partitionKey : View → String
  | .table => Attribute.id
  | .edgeIndex => Attribute.edge

/-- The place of a row in a view, the partition first; a row without an edge attribute is not in the edge index. -/
def position? (view : View) (row : Row) : Option (List String) :=
  match view with
  | .table => some [row.key.id, row.key.dataType]
  | .edgeIndex => (row.attributes.string? Attribute.edge).map fun edge => [edge, row.key.dataType, row.key.id]

/-- Rows in the order of their places in a view. -/
def inOrder (view : View) (rows : List Row) : List Row :=
  let placed := rows.map fun row => ((view.position? row).getD [], row)
  (placed.mergeSort fun a b => !(b.1 < a.1)).map Prod.snd

theorem mem_inOrder {view : View} {rows : List Row} {row : Row} : row ∈ view.inOrder rows ↔ row ∈ rows := by
  simp [inOrder, List.mem_map, List.mem_mergeSort]

/-- The continuation key of a row: its key attributes under their names. -/
def startKey (view : View) (row : Row) : StartKey :=
  let ofTable := [(Attribute.id, row.key.id), (Attribute.dataType, row.key.dataType)]
  match view, row.attributes.string? Attribute.edge with
  | .edgeIndex, some edge => Dict.ofList (ofTable ++ [(Attribute.edge, edge)])
  | _, _ => Dict.ofList ofTable

/-- The text of a key attribute in a continuation key. -/
def text (key : StartKey) (name : String) : Except GraphError String :=
  match key.get? name with
  | some s => .ok s
  | none => .error (.cursor (.missing name))

/-- The place that a continuation key names; of missing attributes the first in the order of the view is reported. -/
def startPosition (view : View) (key : StartKey) : Except GraphError (List String) :=
  match view with
  | .table => do return [← text key Attribute.id, ← text key Attribute.dataType]
  | .edgeIndex => do return [← text key Attribute.edge, ← text key Attribute.dataType, ← text key Attribute.id]

end View

/-- A query of one partition. -/
structure Query where
  /-- The index to read, or the table itself. -/
  index : Option String
  partitionKey : String
  partition : String
  /-- What the data types read begin with. -/
  sortBeginning : String
  /-- How many rows are looked at. -/
  limit : Nat
  /-- The key after which the query continues. -/
  startAfter : Option StartKey
  /-- Rows with a time to live up to this are left out. -/
  ttlAbove : Option Int64

namespace Query

/-- How many rows a query looks at where it is not told. -/
def usualLimit : Nat := 1000

/-- The query of a partition of the table. -/
def ofTable (partition : String) : Query := ⟨none, Attribute.id, partition, "", usualLimit, none, none⟩

/-- The query of a partition of an index. -/
def ofIndex (index partitionKey partition : String) : Query :=
  ⟨some index, partitionKey, partition, "", usualLimit, none, none⟩

/-- The view that a query names, where the edge index has the given name. -/
def view (q : Query) (indexName : String) : Except GraphError View :=
  match q.index with
  | none => .ok .table
  | some name => if name = indexName then .ok .edgeIndex else .error (.store (.unknownIndex name))

/-- The place after which a query continues, in a view. -/
def start (q : Query) (view : View) : Except GraphError (Option (List String)) :=
  match q.startAfter with
  | none => .ok none
  | some key => (view.startPosition key).map some

/-- Whether a place of a view is in the partition of a query and under the beginning that it asks for. -/
def covers (q : Query) : List String → Bool
  | partition :: dataType :: _ => partition == q.partition && q.sortBeginning.toList.isPrefixOf dataType.toList
  | _ => false

/-- Whether a place comes after the start of a query. -/
def isAfter (start : Option (List String)) (position : List String) : Bool :=
  match start with
  | none => true
  | some s => s < position

/-- Whether a query would still come to a row. -/
def reaches (q : Query) (view : View) (start : Option (List String)) (row : Row) : Bool :=
  match view.position? row with
  | some position => q.covers position && isAfter start position
  | none => false

/-- Whether a query keeps a row that it has looked at. -/
def keeps (q : Query) (row : Row) : Bool :=
  match q.ttlAbove, (row.attributes.lookup Attribute.ttl).bind Value.int? with
  | some cutoff, some ttl => cutoff < ttl
  | _, _ => true

/-- What a query reads, where it asks for something that there is: its view, and the place after which it continues. -/
def resolve (q : Query) (indexName : String) : Except GraphError (View × Option (List String)) :=
  match q.view indexName with
  | .error e => .error e
  | .ok view =>
    if q.partitionKey ≠ view.partitionKey then .error (.store (.wrongPartitionKey q.partitionKey))
    else if q.limit = 0 then .error (.store .limitNotPositive)
    else (q.start view).map (view, ·)

end Query

/-- A page of rows. -/
structure Page where
  rows : List Row
  /-- The key after which the next page begins, where there is one. -/
  last : Option StartKey

/-- The page without rows and without a next one. -/
def Page.empty : Page := ⟨[], none⟩

namespace Table

/-- The rows that a query would still come to, in the order of the view. The order of the table is the one of its rows.
-/
def ahead (t : Table) (q : Query) (view : View) (start : Option (List String)) : List Row :=
  match view with
  | .table => t.rows.filter (q.reaches .table start)
  | .edgeIndex => View.edgeIndex.inOrder (t.rows.filter (q.reaches .edgeIndex start))

/-- The page of a query, of the rows that it would still come to. -/
def page (t : Table) (q : Query) (view : View) (start : Option (List String)) : Page :=
  let rows := t.ahead q view start
  let looked := rows.take q.limit
  ⟨looked.filter q.keeps, if rows.length > q.limit then looked.getLast?.map view.startKey else none⟩

/-- One page of a query. -/
def query (t : Table) (indexName : String) (q : Query) : Except GraphError Page :=
  (q.resolve indexName).map fun r => t.page q r.1 r.2

/-- How many rows a query would still come to. -/
def remaining (t : Table) (indexName : String) (q : Query) : Nat :=
  match q.resolve indexName with
  | .ok (view, start) => t.rows.countP (q.reaches view start)
  | .error _ => 0

end Table

namespace QueryAux

/-- The continuation key of a row names the place of the row. -/
theorem startPosition_startKey {view : View} {row : Row} {position : List String}
    (h : view.position? row = some position) : view.startPosition (view.startKey row) = .ok position := by
  have hid : Attribute.id ≠ Attribute.dataType := by decide
  have hie : Attribute.id ≠ Attribute.edge := by decide
  have hde : Attribute.dataType ≠ Attribute.edge := by decide
  cases view with
  | table =>
    have hkey : View.table.startKey row =
        Dict.ofList [(Attribute.id, row.key.id), (Attribute.dataType, row.key.dataType)] := by
      simp only [View.startKey]
    simp only [View.position?, Option.some.injEq] at h
    subst h
    simp [View.startPosition, View.text, hkey, Dict.get?_ofList, List.lookup_cons, beq_eq_false_iff_ne.mpr hid, bind,
      Except.bind, pure, Except.pure]
  | edgeIndex =>
    simp only [View.position?, Option.map_eq_some_iff] at h
    obtain ⟨edge, he, rfl⟩ := h
    have hkey : View.edgeIndex.startKey row =
        Dict.ofList [(Attribute.id, row.key.id), (Attribute.dataType, row.key.dataType), (Attribute.edge, edge)] := by
      simp [View.startKey, he]
    simp [View.startPosition, View.text, hkey, Dict.get?_ofList, List.lookup_cons, beq_eq_false_iff_ne.mpr hid,
      beq_eq_false_iff_ne.mpr hie, beq_eq_false_iff_ne.mpr hde, bind, Except.bind, pure, Except.pure]

/-- A count is smaller under a test that accepts no more elements and not this one. -/
theorem countP_lt {α : Type} {p q : α → Bool} {a : α} {l : List α} (ha : a ∈ l) (hpa : p a = true) (hqa : q a = false)
    (h : ∀ b ∈ l, q b = true → p b = true) : l.countP q < l.countP p := by
  induction l with
  | nil => simp at ha
  | cons b rest ih =>
    have hmono : rest.countP q ≤ rest.countP p :=
      List.countP_mono_left fun c hc hq => h c (List.mem_cons_of_mem _ hc) hq
    rcases List.mem_cons.mp ha with rfl | ha
    · rw [List.countP_cons_of_pos hpa, List.countP_cons_of_neg (by simp [hqa])]
      omega
    · have hrest := ih ha fun c hc => h c (List.mem_cons_of_mem _ hc)
      rw [List.countP_cons, List.countP_cons]
      by_cases hq : q b = true
      · rw [if_pos hq, if_pos (h b (List.mem_cons_self ..) hq)]
        omega
      · rw [if_neg hq]
        omega

/-- A row that a query would still come to has a place, and that place is after the start. -/
theorem of_reaches {q : Query} {view : View} {start : Option (List String)} {row : Row}
    (h : q.reaches view start row = true) :
    ∃ position, view.position? row = some position ∧ q.covers position = true ∧
      Query.isAfter start position = true := by
  unfold Query.reaches at h
  split at h
  next position hp =>
    rw [Bool.and_eq_true] at h
    exact ⟨position, hp, h.1, h.2⟩
  · simp at h

/-- A query that continues after the key of a row of its view begins after the place of that row. -/
theorem resolve_startKey {q : Query} {indexName : String} {view : View} {start : Option (List String)} {row : Row}
    {position : List String} (h : q.resolve indexName = .ok (view, start)) (hp : view.position? row = some position) :
    { q with startAfter := some (view.startKey row) : Query }.resolve indexName = .ok (view, some position) := by
  unfold Query.resolve at h ⊢
  have hv : { q with startAfter := some (view.startKey row) : Query }.view indexName = q.view indexName := rfl
  rw [hv]
  split at h
  · simp at h
  next found hfound =>
    split at h
    · simp at h
    next hkey =>
      split at h
      · simp at h
      next hlimit =>
        have hview : found = view := by
          cases hs : q.start found with
          | error e => simp [hs, Except.map] at h
          | ok s =>
            simp only [hs, Except.map, Except.ok.injEq, Prod.mk.injEq] at h
            exact h.1
        subst hview
        dsimp only
        rw [if_neg hkey, if_neg hlimit]
        simp [Query.start, startPosition_startKey hp, Except.map]

end QueryAux

namespace Table

/-- A row ahead is a row of the table that the query would still come to. -/
theorem mem_ahead {t : Table} {q : Query} {view : View} {start : Option (List String)} {row : Row} :
    row ∈ t.ahead q view start ↔ row ∈ t.rows ∧ q.reaches view start row = true := by
  cases view <;> simp [ahead, View.mem_inOrder, List.mem_filter]

/-- The query that continues after the key of a page comes to fewer rows. -/
theorem remaining_lt {t : Table} {indexName : String} {q : Query} {page : Page} {last : StartKey}
    (h : t.query indexName q = .ok page) (hl : page.last = some last) :
    t.remaining indexName { q with startAfter := some last } < t.remaining indexName q := by
  unfold query at h
  cases hr : q.resolve indexName with
  | error e => simp [hr, Except.map] at h
  | ok r =>
    obtain ⟨view, start⟩ := r
    simp only [hr, Except.map, Except.ok.injEq] at h
    subst h
    have hlast : ((t.ahead q view start).take q.limit).getLast?.map view.startKey = some last := by
      simp only [page, Option.ite_none_right_eq_some] at hl
      exact hl.2
    obtain ⟨row, hrow, rfl⟩ := Option.map_eq_some_iff.mp hlast
    obtain ⟨hin, hreach⟩ := mem_ahead.mp (List.mem_of_mem_take (List.mem_of_getLast? hrow))
    obtain ⟨position, hp, hcovers, hafter⟩ := QueryAux.of_reaches hreach
    unfold remaining
    rw [QueryAux.resolve_startKey hr hp, hr]
    refine QueryAux.countP_lt hin hreach ?_ fun other _ hother => ?_
    · unfold Query.reaches
      simp only [hp, Query.isAfter, Bool.and_eq_false_iff]
      exact Or.inr (decide_eq_false (List.lt_irrefl _))
    · obtain ⟨place, hplace, hc, ha⟩ := QueryAux.of_reaches hother
      unfold Query.reaches
      rw [hplace]
      refine Bool.and_eq_true_iff.mpr ⟨hc, ?_⟩
      cases start with
      | none => rfl
      | some s => exact decide_eq_true (List.lt_trans (of_decide_eq_true hafter) (of_decide_eq_true ha))

end Table

end PropertyGraph
