import PropertyGraph.Store.Query

/-!
# The store

A store holds tables under names and answers five requests: a put, a batch of puts, a batch of look-ups, a query, and
the setting of a time to live. Each answer comes with the store after it. A request can meet faults that were set up
beforehand: a number of coming requests is throttled, a number of coming batches leaves its last put undone, and puts
and markings in some partitions are rejected. A query is never throttled. A request that is answered by an error leaves
every table as it was.
-/

namespace PropertyGraph

/-- Tables under their names, and the faults that coming requests will meet. -/
structure Store where
  tables : Dict Table
  /-- The name of the edge index. -/
  indexName : String
  /-- How many coming batches of puts leave their last one undone. -/
  undoneRounds : Nat
  /-- How many coming requests are throttled. -/
  throttledCalls : Nat
  /-- The partitions in which puts and markings are rejected. -/
  failingIds : List String
  /-- How many batches of puts were asked for. -/
  batchWriteCalls : Nat
  /-- How many queries were asked for. -/
  queryCalls : Nat

/-- Whether a put may replace a row. -/
inductive PutCondition where
  | always | ifNotExists
  deriving DecidableEq, Repr

namespace Store

/-- The most puts in one batch. -/
def mostWrites : Nat := 25

/-- The most keys in one batch of look-ups. -/
def mostGets : Nat := 100

/-- The name that the edge index has where no other is given. -/
def usualIndexName : String := "edge-dataType"

/-- The store without tables and faults. -/
def empty (indexName : String) : Store := ⟨Dict.empty, indexName, 0, 0, [], 0, 0⟩

/-- The table of a name, which is empty where there is none. -/
def tableOf (s : Store) (table : String) : Table := (s.tables.get? table).getD Table.empty

/-- The attributes of the row of a key. -/
def get? (s : Store) (table : String) (key : Key) : Option Fields := ((s.tableOf table).get? key).map Row.attributes

/-- How many rows a table has. -/
def size (s : Store) (table : String) : Nat := (s.tableOf table).size

/-- The store in which a table is replaced. -/
def withTable (s : Store) (table : String) (t : Table) : Store := { s with tables := s.tables.insert table t }

/-- The store with rows written into a table, one after the other. -/
def write (s : Store) (table : String) (rows : List Row) : Store :=
  s.withTable table (rows.foldl Table.insert (s.tableOf table))

/-- Throttles a request where a throttled one is due, and answers it otherwise. -/
def unlessThrottled {α : Type} (s : Store) (answer : Except GraphError α × Store) : Except GraphError α × Store :=
  if 0 < s.throttledCalls then (.error .throttled, { s with throttledCalls := s.throttledCalls - 1 }) else answer

/-- Whether puts and markings in a partition are rejected. -/
def rejects (s : Store) (id : String) : Bool := s.failingIds.contains id

/-- The row of a group of attributes that is to be written. -/
def rowOf (attributes : Fields) : Except GraphError Row :=
  match Row.ofAttributes? attributes with
  | some row => .ok row
  | none => .error (.store .rowWithoutKey)

/-- Puts one row past all faults and conditions. -/
def place (s : Store) (table : String) (attributes : Fields) : Except GraphError Unit × Store :=
  match rowOf attributes with
  | .error e => (.error e, s)
  | .ok row => (.ok (), s.write table [row])

/-- Puts one row. -/
def put (s : Store) (table : String) (attributes : Fields) (condition : PutCondition) :
    Except GraphError Unit × Store :=
  s.unlessThrottled <|
    match rowOf attributes with
    | .error e => (.error e, s)
    | .ok row =>
      if s.rejects row.key.id then (.error (.store (.writeRejected row.key.id)), s)
      else if condition = .ifNotExists ∧ ((s.tableOf table).get? row.key).isSome then (.error (.rowExists row.key), s)
      else (.ok (), s.write table [row])

/-- The rows of a batch that is to be written: all of them, or the first fault. -/
def rowsOf : List Fields → Except GraphError (List Row)
  | [] => .ok []
  | attributes :: rest =>
    match rowOf attributes with
    | .error e => .error e
    | .ok row => (rowsOf rest).map (row :: ·)

/-- Puts those of a batch that are not left undone; all of them or none. -/
def writeBatch (s : Store) (table : String) (batch undone : List Fields) : Except GraphError (List Fields) × Store :=
  match rowsOf batch with
  | .error e => (.error e, s)
  | .ok rows =>
    match rows.find? fun row => s.rejects row.key.id with
    | some row => (.error (.store (.writeRejected row.key.id)), s)
    | none => (.ok undone, s.write table rows)

/-- Puts a batch of rows and answers with those that were left undone. -/
def batchWrite (s : Store) (table : String) (batch : List Fields) : Except GraphError (List Fields) × Store :=
  let s := { s with batchWriteCalls := s.batchWriteCalls + 1 }
  if batch.length > mostWrites then (.error (.store (.batchWriteTooLarge batch.length mostWrites)), s)
  else
    s.unlessThrottled <|
      if 0 < s.undoneRounds then
        { s with undoneRounds := s.undoneRounds - 1 }.writeBatch table batch.dropLast batch.getLast?.toList
      else s.writeBatch table batch []

/-- Looks up a batch of keys; a key without a row is left out of the answer. -/
def batchGet (s : Store) (table : String) (keys : List Key) : Except GraphError (List Fields) × Store :=
  if keys.length > mostGets then (.error (.store (.batchGetTooLarge keys.length mostGets)), s)
  else s.unlessThrottled (.ok (keys.filterMap fun key => s.get? table key), s)

/-- Reads one page of a query; of a table that is not there, an empty one. -/
def query (s : Store) (table : String) (q : Query) : Except GraphError Page × Store :=
  let answer :=
    match s.tables.get? table with
    | some t => t.query s.indexName q
    | none => .ok Page.empty
  (answer, { s with queryCalls := s.queryCalls + 1 })

/-- Sets the time to live of a row that is there. -/
def updateTtl (s : Store) (table : String) (key : Key) (ttl : Int64) : Except GraphError Unit × Store :=
  s.unlessThrottled <|
    if s.rejects key.id then (.error (.store (.writeRejected key.id)), s)
    else if ((s.tableOf table).get? key).isSome then (.ok (), s.withTable table ((s.tableOf table).mark key ttl))
    else (.error (.noRow key), s)

/-- The next requests are throttled. -/
def throttling (s : Store) (calls : Nat) : Store := { s with throttledCalls := calls }

/-- The next batches of puts leave their last one undone. -/
def leavingUndone (s : Store) (rounds : Nat) : Store := { s with undoneRounds := rounds }

/-- Puts and markings in one more partition are rejected. -/
def rejecting (s : Store) (id : String) : Store := { s with failingIds := id :: s.failingIds }

/-- How many rows of a table a query would still come to. -/
def remaining (s : Store) (table : String) (q : Query) : Nat :=
  match s.tables.get? table with
  | some t => t.remaining s.indexName q
  | none => 0

/-- A query changes neither tables nor the edge index, so that it leaves as many rows to read as before. -/
theorem remaining_query (s : Store) (table other : String) (q r : Query) :
    (s.query table q).2.remaining other r = s.remaining other r :=
  rfl

/-- The query that continues after the key of a page comes to fewer rows. -/
theorem remaining_lt {s : Store} {table : String} {q : Query} {page : Page} {last : StartKey}
    (h : (s.query table q).1 = .ok page) (hl : page.last = some last) :
    s.remaining table { q with startAfter := some last } < s.remaining table q := by
  unfold query at h
  unfold remaining
  cases ht : s.tables.get? table with
  | none =>
    simp only [ht, Except.ok.injEq] at h
    subst h
    simp [Page.empty] at hl
  | some t =>
    simp only [ht] at h
    exact Table.remaining_lt h hl

end Store

namespace StoreAux

/-- A time to live moves no row in any view. -/
theorem position?_withTtl (view : View) (row : Row) (ttl : Int64) :
    view.position? (row.withTtl ttl) = view.position? row := by
  cases view with
  | table => rfl
  | edgeIndex =>
    have he : Attribute.edge ≠ Attribute.ttl := by decide
    simp only [View.position?, Row.string?_withTtl he]
    rfl

/-- Marking a row leaves as many rows to read as before. -/
theorem remaining_mark (t : Table) (key : Key) (ttl : Int64) (indexName : String) (q : Query) :
    (t.mark key ttl).remaining indexName q = t.remaining indexName q := by
  unfold Table.remaining
  split
  next view start hr =>
    simp only [Table.mark, List.countP_map]
    congr 1
    funext row
    simp only [Function.comp_apply]
    split
    · simp only [Query.reaches, position?_withTtl]
    · rfl
  · rfl

end StoreAux

namespace Store

/-- Setting a time to live leaves as many rows to read as before. -/
theorem remaining_updateTtl (s : Store) (table : String) (key : Key) (ttl : Int64) (q : Query) :
    (s.updateTtl table key ttl).2.remaining table q = s.remaining table q := by
  unfold updateTtl unlessThrottled
  split
  · rfl
  · split
    · rfl
    · split
      next hsome =>
        cases ht : s.tables.get? table with
        | none => simp [tableOf, ht, Table.empty, Table.get?] at hsome
        | some t =>
          simp only [remaining, withTable, Dict.get?_insert, if_true, ht, tableOf, Option.getD_some]
          exact StoreAux.remaining_mark t key ttl s.indexName q
      · rfl

end Store

end PropertyGraph
