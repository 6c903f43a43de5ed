import PropertyGraph.Reduction
import PropertyGraph.Store.Storage

/-!
# Traversals

From a node along a side of its type, the edges are read page by page: those of a principal side lie in the partition
of the node, those of the other side are read through the edge index. The name of the edge with its two colons is the
beginning of the data types that are read. A beginning may also belong to a longer name, so that a neighbor counts only
where the name of its edge is the one of the side; it counts once, where it comes first, and only with an id that is
not empty.
-/

namespace PropertyGraph

/-- Where edges are read, and as of when. -/
structure EdgeReader where
  table : String
  indexName : String
  now : Int64

/-- One page of edges. -/
structure EdgeFetch where
  /-- The live edges of the page. -/
  edges : List Edge
  /-- The key after which the next page begins. -/
  next : Option StartKey

/-- One page of neighbors. -/
structure EdgePage where
  /-- The neighbors, each once, in the order of the store. -/
  neighbors : List String
  /-- The live edges of the page. -/
  edges : List Edge
  /-- The cursor of the next page. -/
  cursor : Option String

/-- The live edges among rows; the first row that is no record is reported. -/
def liveEdges (now : Int64) : List Row → Except GraphError (List Edge)
  | [] => .ok []
  | row :: rest =>
    match Record.ofAttributes row.attributes with
    | .error e => .error e
    | .ok (.node _) => liveEdges now rest
    | .ok (.edge e) => if isOver e.ttl now then liveEdges now rest else (liveEdges now rest).map (e :: ·)

/-- The ids that are neither empty nor seen before, each once. -/
def distinctIds (seen : List String) : List String → List String
  | [] => []
  | id :: rest => if id = "" ∨ id ∈ seen then distinctIds seen rest else id :: distinctIds (id :: seen) rest

/-- The neighbors to which edges lead from a side. -/
def EdgeSide.neighbors (side : EdgeSide) (edges : List Edge) : List String :=
  distinctIds [] ((edges.filter fun e => e.name == side.edgeName).map side.far)

namespace EdgeReader

/-- The query of the edges from a node along a side. -/
def query (r : EdgeReader) (root : String) (side : EdgeSide) (limit : Nat) (start : Option StartKey) : Query :=
  let base := if side.principal then Query.ofTable root else Query.ofIndex r.indexName Attribute.edge root
  { base with
    sortBeginning := side.edgeName ++ sortSeparator
    limit := limit
    startAfter := start
    ttlAbove := some r.now }

/-- What the answer to a query of edges gives. -/
def fetched (r : EdgeReader) (answer : Except GraphError PropertyGraph.Page) : Except GraphError EdgeFetch :=
  match answer with
  | .error e => .error e
  | .ok page => (liveEdges r.now page.rows).map (⟨·, page.last⟩)

variable {σ : Type} [Storage σ]

/-- Reads one page of edges. -/
def fetch (r : EdgeReader) (s : σ) (q : Query) : Except GraphError EdgeFetch × σ :=
  (r.fetched (Storage.query s r.table q).1, (Storage.query s r.table q).2)

/-- After a page of edges fewer rows are left to read. -/
theorem remaining_fetch {r : EdgeReader} {s : σ} {q : Query} {f : EdgeFetch} {next : StartKey}
    (h : (r.fetch s q).1 = .ok f) (hn : f.next = some next) :
    Storage.remaining (r.fetch s q).2 r.table { q with startAfter := some next } < Storage.remaining s r.table q := by
  simp only [fetch, fetched] at h
  cases ha : (Storage.query s r.table q).1 with
  | error e => simp [ha] at h
  | ok page =>
    simp only [ha] at h
    cases hl : liveEdges r.now page.rows with
    | error e => simp [hl, Except.map] at h
    | ok edges =>
      simp only [hl, Except.map, Except.ok.injEq] at h
      subst h
      exact Storage.remaining_lt ha hn

/-- Reads one page of neighbors, from the start or after a cursor. -/
def page (r : EdgeReader) (s : σ) (root : String) (side : EdgeSide) (limit : Nat) (cursor : Option String) :
    Except GraphError EdgePage × σ :=
  match Cursor.decodeOptional cursor with
  | .error e => (.error e, s)
  | .ok start =>
    let (answer, s) := r.fetch s (r.query root side limit start)
    (answer.map fun f => ⟨side.neighbors f.edges, f.edges, f.next.map Cursor.encode⟩, s)

/-- Reads the edges of all pages of a query. -/
def edgesFrom (r : EdgeReader) (s : σ) (q : Query) : Except GraphError (List Edge) × σ :=
  match _h : (r.fetch s q).1 with
  | .error e => (.error e, (r.fetch s q).2)
  | .ok f =>
    match _hn : f.next with
    | none => (.ok f.edges, (r.fetch s q).2)
    | some next =>
      let (rest, s) := r.edgesFrom (r.fetch s q).2 { q with startAfter := some next }
      (rest.map (f.edges ++ ·), s)
termination_by Storage.remaining s r.table q
decreasing_by exact remaining_fetch _h _hn

/-- Reads all neighbors, from the start or after a cursor, so many rows at a time. -/
def all (r : EdgeReader) (s : σ) (root : String) (side : EdgeSide) (limit : Nat) (cursor : Option String) :
    Except GraphError EdgePage × σ :=
  match Cursor.decodeOptional cursor with
  | .error e => (.error e, s)
  | .ok start =>
    let (answer, s) := r.edgesFrom s (r.query root side limit start)
    (answer.map fun edges => ⟨side.neighbors edges, edges, none⟩, s)

/-- Reads pages until one has a neighbor, or none is left. -/
def firstNeighbors (r : EdgeReader) (s : σ) (side : EdgeSide) (q : Query) : Except GraphError (List String) × σ :=
  match _h : (r.fetch s q).1 with
  | .error e => (.error e, (r.fetch s q).2)
  | .ok f =>
    match _hn : f.next with
    | none => (.ok (side.neighbors f.edges), (r.fetch s q).2)
    | some next =>
      if side.neighbors f.edges = [] then r.firstNeighbors (r.fetch s q).2 side { q with startAfter := some next }
      else (.ok (side.neighbors f.edges), (r.fetch s q).2)
termination_by Storage.remaining s r.table q
decreasing_by exact remaining_fetch _h _hn

/-! ## Page by page -/

variable {r : EdgeReader} {s : σ} {side : EdgeSide} {q : Query} {f : EdgeFetch}

theorem edgesFrom_error {e : GraphError} (h : (r.fetch s q).1 = .error e) :
    r.edgesFrom s q = (.error e, (r.fetch s q).2) := by
  rw [edgesFrom]
  split
  next other ho => rw [Except.error.inj (ho.symm.trans h)]
  next f hf => exact absurd (hf.symm.trans h) (by simp)

/-- A page without a next one is the last. -/
theorem edgesFrom_last (h : (r.fetch s q).1 = .ok f) (hn : f.next = none) :
    r.edgesFrom s q = (.ok f.edges, (r.fetch s q).2) := by
  rw [edgesFrom]
  split
  next e he => exact absurd (he.symm.trans h) (by simp)
  next other ho =>
    obtain rfl := Except.ok.inj (ho.symm.trans h)
    split
    · rfl
    next next hnext => exact absurd (hnext.symm.trans hn) (by simp)

/-- The edges of a page come before those of the pages after it. -/
theorem edgesFrom_next {next : StartKey} (h : (r.fetch s q).1 = .ok f) (hn : f.next = some next) :
    r.edgesFrom s q = ((r.edgesFrom (r.fetch s q).2 { q with startAfter := some next }).1.map (f.edges ++ ·),
      (r.edgesFrom (r.fetch s q).2 { q with startAfter := some next }).2) := by
  rw [edgesFrom]
  split
  next e he => exact absurd (he.symm.trans h) (by simp)
  next other ho =>
    obtain rfl := Except.ok.inj (ho.symm.trans h)
    split
    next hnone => exact absurd (hnone.symm.trans hn) (by simp)
    next found hfound => rw [Option.some.inj (hfound.symm.trans hn)]

/-- Reading until a neighbor is found ends with the error of the first page. -/
theorem firstNeighbors_error {e : GraphError} (h : (r.fetch s q).1 = .error e) :
    r.firstNeighbors s side q = (.error e, (r.fetch s q).2) := by
  rw [firstNeighbors]
  split
  next other ho => rw [Except.error.inj (ho.symm.trans h)]
  next f hf => exact absurd (hf.symm.trans h) (by simp)

/-- Reading until a neighbor is found ends with a page that has one or that is the last. -/
theorem firstNeighbors_stop (h : (r.fetch s q).1 = .ok f) (hstop : f.next = none ∨ side.neighbors f.edges ≠ []) :
    r.firstNeighbors s side q = (.ok (side.neighbors f.edges), (r.fetch s q).2) := by
  rw [firstNeighbors]
  split
  next e he => exact absurd (he.symm.trans h) (by simp)
  next other ho =>
    obtain rfl := Except.ok.inj (ho.symm.trans h)
    split
    · rfl
    next next hnext =>
      rcases hstop with hnone | hsome
      · exact absurd (hnext.symm.trans hnone) (by simp)
      · rw [if_neg hsome]

/-- Reading until a neighbor is found goes on after a page that has none. -/
theorem firstNeighbors_next {next : StartKey} (h : (r.fetch s q).1 = .ok f) (hn : f.next = some next)
    (hempty : side.neighbors f.edges = []) :
    r.firstNeighbors s side q = r.firstNeighbors (r.fetch s q).2 side { q with startAfter := some next } := by
  rw [firstNeighbors]
  split
  next e he => exact absurd (he.symm.trans h) (by simp)
  next other ho =>
    obtain rfl := Except.ok.inj (ho.symm.trans h)
    split
    next hnone => exact absurd (hnone.symm.trans hn) (by simp)
    next found hfound => rw [if_pos hempty, Option.some.inj (hfound.symm.trans hn)]

end EdgeReader

end PropertyGraph
