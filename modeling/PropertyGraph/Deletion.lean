import PropertyGraph.Clock
import PropertyGraph.Store.Storage

/-!
# Soft deletion

Deleting an entity gives a time to live to every row of its partition, page by page. A row that has expired, or will
have by that time, is left alone. A row that cannot be marked is reported and the scan goes on; a query that fails ends
the scan of its partition. The time to live is the one that is supplied, or now, but never earlier than a grace window
before now.
-/

namespace PropertyGraph

/-- How many seconds a minute has. -/
def secondsPerMinute : Int64 := 60

/-- The time to live that a deletion writes. -/
def effectiveTtl (supplied : Option Int64) (now graceMinutes : Int64) : Int64 :=
  max (supplied.getD now) (minusClamped now (timesClamped graceMinutes secondsPerMinute))

/-- How many rows were marked, and what went wrong. -/
structure Deleted where
  count : Nat
  errors : List GraphError

/-- What two parts of a deletion come to. -/
def Deleted.append (a b : Deleted) : Deleted := ⟨a.count + b.count, a.errors ++ b.errors⟩

/-- What the marking of one row comes to. -/
def Deleted.ofAnswer : Except GraphError Unit → Deleted
  | .ok () => ⟨1, []⟩
  | .error e => ⟨0, [e]⟩

section requests

variable {σ : Type} [Storage σ]

/-- Marks rows, one after the other. -/
def markRows (s : σ) (table : String) (ttl : Int64) : List Row → Deleted × σ
  | [] => (⟨0, []⟩, s)
  | row :: rest =>
    let (answer, s) := Storage.updateTtl s table row.key ttl
    let (others, s) := markRows s table ttl rest
    ((Deleted.ofAnswer answer).append others, s)

/-- Marking rows leaves as many rows to read as before. -/
theorem remaining_markRows (s : σ) (table : String) (ttl : Int64) (rows : List Row) (q : Query) :
    Storage.remaining (markRows s table ttl rows).2 table q = Storage.remaining s table q := by
  induction rows generalizing s with
  | nil => rfl
  | cons row rest ih =>
    simp only [markRows]
    rw [ih, Storage.remaining_updateTtl]

/-- Marks the rows of all pages of a query. -/
def scan (s : σ) (table : String) (ttl : Int64) (q : Query) : Deleted × σ :=
  match _h : (Storage.query s table q).1 with
  | .error e => (⟨0, [e]⟩, (Storage.query s table q).2)
  | .ok page =>
    match _hl : page.last with
    | none => markRows (Storage.query s table q).2 table ttl page.rows
    | some last =>
      let rest := scan (markRows (Storage.query s table q).2 table ttl page.rows).2 table ttl
        { q with startAfter := some last }
      ((markRows (Storage.query s table q).2 table ttl page.rows).1.append rest.1, rest.2)
termination_by Storage.remaining s table q
decreasing_by
  rw [remaining_markRows]
  exact Storage.remaining_lt _h _hl

/-- A query that fails ends a scan. -/
theorem scan_error {s : σ} {table : String} {ttl : Int64} {q : Query} {e : GraphError}
    (h : (Storage.query s table q).1 = .error e) : scan s table ttl q = (⟨0, [e]⟩, (Storage.query s table q).2) := by
  rw [scan]
  split
  next other ho => rw [Except.error.inj (ho.symm.trans h)]
  next page hpage => exact absurd (hpage.symm.trans h) (by simp)

/-- The rows of the last page are marked, and the scan ends. -/
theorem scan_last {s : σ} {table : String} {ttl : Int64} {q : Query} {page : Page}
    (h : (Storage.query s table q).1 = .ok page) (hl : page.last = none) :
    scan s table ttl q = markRows (Storage.query s table q).2 table ttl page.rows := by
  rw [scan]
  split
  next e he => exact absurd (he.symm.trans h) (by simp)
  next other ho =>
    obtain rfl := Except.ok.inj (ho.symm.trans h)
    split
    · rfl
    next last hlast => exact absurd (hlast.symm.trans hl) (by simp)

/-- The rows of a page are marked before those of the pages after it. -/
theorem scan_next {s : σ} {table : String} {ttl : Int64} {q : Query} {page : Page} {last : StartKey}
    (h : (Storage.query s table q).1 = .ok page) (hl : page.last = some last) :
    scan s table ttl q =
      let marked := markRows (Storage.query s table q).2 table ttl page.rows
      let rest := scan marked.2 table ttl { q with startAfter := some last }
      (marked.1.append rest.1, rest.2) := by
  rw [scan]
  split
  next e he => exact absurd (he.symm.trans h) (by simp)
  next other ho =>
    obtain rfl := Except.ok.inj (ho.symm.trans h)
    split
    next hnone => exact absurd (hnone.symm.trans hl) (by simp)
    next found hfound => rw [Option.some.inj (hfound.symm.trans hl)]

/-- The query of the rows of a partition that a deletion marks. -/
def deletionQuery (id : String) (pageLimit : Nat) (ttl now : Int64) : Query :=
  { Query.ofTable id with limit := pageLimit, ttlAbove := some (max ttl now) }

/-- Deletes one entity: gives the time to live to every row of its partition that has none, or a later one than both it
and now. -/
def softDelete (s : σ) (table : String) (pageLimit : Nat) (id : String) (ttl now : Int64) : Deleted × σ :=
  scan s table ttl (deletionQuery id pageLimit ttl now)

/-- Deletes entities, one after the other. -/
def softDeleteMany (s : σ) (table : String) (pageLimit : Nat) (ttl now : Int64) : List String → Deleted × σ
  | [] => (⟨0, []⟩, s)
  | id :: rest =>
    let (first, s) := softDelete s table pageLimit id ttl now
    let (others, s) := softDeleteMany s table pageLimit ttl now rest
    (first.append others, s)

end requests

end PropertyGraph
