import PropertyGraph.Proofs.FilteredPath

/-!
# Walks while others write

Between two pages of a walk other callers may create, overwrite and delete, in whatever stages of their calls, and meet
faults (`Store.Evolves`). The place of an edge depends on nothing but its two ends and the side it is seen from, so
that rows may come, go and change without moving any edge. A page then returns exactly the neighbors that are linked
when it is read and whose places lie between its start and its cursor (`EdgeReader.window_of_next`), and these windows
follow one another without gap or overlap. So no neighbor comes twice, and one that is linked all the while comes once
(`EdgeReader.interleaved_walk_is_stable`).
-/

namespace PropertyGraph

/-! ## What others do -/

/-- What becomes of a store while others use it: their calls, single writes of calls that are under way, and faults
that are set up. What they read changes no table. -/
inductive Store.Evolves (s : Store) : Store → Prop
  | refl : Evolves s s
  | create {s' : Store} (h : Evolves s s') (e : Engine) (ids : IdSource) (now : Instant) (typeName : String)
      (r : CreateRequest) : Evolves s (e.create s' ids now typeName r).2.1
  | upsert {s' : Store} (h : Evolves s s') (e : Engine) (ids : IdSource) (now : Instant) (typeName : String)
      (r : UpsertRequest) : Evolves s (e.upsert s' ids now typeName r).2.1
  | delete {s' : Store} (h : Evolves s s') (e : Engine) (now : Int64) (r : DeleteRequest) :
      Evolves s (e.delete s' now r).2
  | deleteMany {s' : Store} (h : Evolves s s') (e : Engine) (now : Int64) (r : DeleteRequest) :
      Evolves s (e.deleteMany s' now r).2
  | put {s' : Store} (h : Evolves s s') (table : String) (r : Record) (hr : r.IsStorable) (condition : PutCondition) :
      Evolves s (s'.put table r.toAttributes condition).2
  | batchWrite {s' : Store} (h : Evolves s s') (table : String) (records : List Record)
      (hr : ∀ r ∈ records, r.IsStorable) : Evolves s (s'.batchWrite table (records.map Record.toAttributes)).2
  | updateTtl {s' : Store} (h : Evolves s s') (table : String) (key : Key) (ttl : Int64) :
      Evolves s (s'.updateTtl table key ttl).2
  | throttling {s' : Store} (h : Evolves s s') (calls : Nat) : Evolves s (s'.throttling calls)
  | leavingUndone {s' : Store} (h : Evolves s s') (rounds : Nat) : Evolves s (s'.leavingUndone rounds)
  | rejecting {s' : Store} (h : Evolves s s') (id : String) : Evolves s (s'.rejecting id)

/-- Whatever others do, every row stays one that a record was written to. -/
theorem Store.Evolves.every_isRowOf {s s' : Store} (h : s.Evolves s') (hs : s.Every (Fields.IsRowOf fun _ => True)) :
    s'.Every (Fields.IsRowOf fun _ => True) := by
  have hkept : Fields.IsKeptByTtl (Fields.IsRowOf fun _ => True) := Fields.isKeptByTtl_isRowOf fun _ _ _ => trivial
  induction h with
  | refl => exact hs
  | create _ e ids now typeName r ih => exact e.every_create (fun r hr _ => ⟨r, hr, trivial, rfl⟩) ih ids now typeName r
  | upsert _ e ids now typeName r ih => exact e.every_upsert (fun r hr _ => ⟨r, hr, trivial, rfl⟩) ih ids now typeName r
  | delete _ e now r ih => exact e.every_delete hkept ih now r
  | deleteMany _ e now r ih => exact e.every_deleteMany hkept ih now r
  | put _ table r hr condition ih => exact ih.put table ⟨r, hr, trivial, rfl⟩ condition
  | batchWrite _ table records hr ih =>
    refine ih.batchWrite table ?_
    intro attributes hmem
    obtain ⟨r, hrecord, rfl⟩ := List.mem_map.mp hmem
    exact ⟨r, hr r hrecord, trivial, rfl⟩
  | updateTtl _ table key ttl ih => exact ih.updateTtl hkept table key ttl
  | throttling _ calls ih => exact ih
  | leavingUndone _ rounds ih => exact ih
  | rejecting _ id ih => exact ih

namespace EdgeReader

variable {r : EdgeReader} {s s' : Store} {root : String} {side : EdgeSide} {limit : Nat} {start : Option (List String)}
  {cursor : Option String}

/-! ## The window of a page -/

/-- A query of edges through an index that the store does not know is answered only of a table that is not there. -/
theorem query_of_unknown_index {key : Option StartKey} {answer : PropertyGraph.Page} (hp : side.principal = false)
    (hindex : r.indexName ≠ s.indexName) (h : (s.query r.table (r.query root side limit key)).1 = .ok answer) :
    s.tableOf r.table = Table.empty ∧ answer = Page.empty := by
  have hview : (r.query root side limit key).view s.indexName = .error (.store (.unknownIndex r.indexName)) := by
    simp [query, hp, Query.view, Query.ofIndex, hindex]
  rw [Store.query] at h
  cases ht : s.tables.get? r.table with
  | some t =>
    rw [ht] at h
    dsimp only at h
    rw [Table.query, Query.resolve, hview] at h
    exact absurd h (by simp [Except.map])
  | none =>
    rw [ht] at h
    exact ⟨by rw [Store.tableOf, ht, Option.getD_none], (Except.ok.inj h).symm⟩

/-- A page that was read is the one that comes after the start which its cursor names, whatever name of the edge index
the reader has: where the query of a principal side does not name the index, its name makes no difference, and where it
does, the store has it. -/
theorem page_of_ok {found : EdgePage} (hr : (s.tableOf r.table).IsReadable) (hl : 0 < limit)
    (hs : side.startOf cursor = .ok start) (h : r.page s root side limit cursor = (.ok found, s')) :
    found = r.pageFrom (s.tableOf r.table) root side limit start := by
  by_cases hindex : r.indexName = s.indexName
  · exact Except.ok.inj (Prod.mk.inj (h.symm.trans (page_eq root hindex hr hl hs))).1
  · cases hp : side.principal with
    | true =>
      have hsame : ({ r with indexName := s.indexName } : EdgeReader).page s root side limit cursor =
          r.page s root side limit cursor := by
        simp only [page, fetch, fetched, query, hp, if_true]
      exact Except.ok.inj (Prod.mk.inj ((h.symm.trans hsame.symm).trans (page_eq root rfl hr hl hs))).1
    | false =>
      obtain ⟨key, hkey, -⟩ := start_query r root limit hs
      rw [page, hkey] at h
      dsimp only [fetch, Store.storage_query] at h
      cases hanswer : (s.query r.table (r.query root side limit key)).1 with
      | error e =>
        rw [hanswer] at h
        exact absurd (Prod.mk.inj h).1 (by simp [fetched, Except.map])
      | ok answer =>
        obtain ⟨htable, rfl⟩ := query_of_unknown_index hp hindex hanswer
        have hnone : Table.empty.along root side start = [] := List.eq_nil_iff_forall_not_mem.mpr fun row hrow =>
          absurd (Table.mem_rows_of_mem_along hrow) List.not_mem_nil
        rw [hanswer] at h
        rw [← Except.ok.inj (Prod.mk.inj h).1, htable, pageFrom, hnone]
        simp [Page.empty, EdgeSide.farEnds, EdgeSide.neighbors, distinctIds]

/-- A page that was read and names no cursor returns, ascending, the neighbors that are linked when it is read and
whose places are after its start. -/
theorem window_of_last {page : EdgePage} (hr : (s.tableOf r.table).IsReadable) (hl : 0 < limit)
    (hs : side.startOf cursor = .ok start) (h : r.page s root side limit cursor = (.ok page, s'))
    (hlast : page.cursor = none) :
    page.neighbors.Pairwise (· < ·) ∧ ∀ id, id ∈ page.neighbors ↔
      id ≠ "" ∧ (s.tableOf r.table).Links r.now side root id ∧ Query.isAfter start (side.placeOf root id) = true := by
  obtain rfl := page_of_ok hr hl hs h
  have hall : (r.pageFrom (s.tableOf r.table) root side limit start).neighbors =
      (s.tableOf r.table).neighborsAlong r.now root side start := by
    rw [Table.neighborsAlong, Table.edgesAlong, pageFrom]
    dsimp only
    rw [List.take_of_length_le (length_le_of_no_cursor hl hlast)]
  rw [hall]
  exact ⟨Table.neighborsAlong_ascending .., fun _ => Table.mem_neighborsAlong_from⟩

/-- A page that was read and names a cursor returns, ascending, the neighbors that are linked when it is read and whose
places are after its start and not after the place which its cursor names. -/
theorem window_of_next {page : EdgePage} {text : String} (hr : (s.tableOf r.table).IsReadable) (hl : 0 < limit)
    (hs : side.startOf cursor = .ok start) (h : r.page s root side limit cursor = (.ok page, s'))
    (hnext : page.cursor = some text) :
    ∃ position, side.startOf (some text) = .ok (some position) ∧ Query.isAfter start position = true ∧
      page.neighbors.Pairwise (· < ·) ∧ ∀ id, id ∈ page.neighbors ↔
        id ≠ "" ∧ (s.tableOf r.table).Links r.now side root id ∧ Query.isAfter start (side.placeOf root id) = true ∧
          ¬ position < side.placeOf root id := by
  obtain rfl := page_of_ok hr hl hs h
  obtain ⟨position, hstart, hrest, -, hafter⟩ := startOf_cursor hnext
  have hsplit : (s.tableOf r.table).neighborsAlong r.now root side start =
      (r.pageFrom (s.tableOf r.table) root side limit start).neighbors ++
        (s.tableOf r.table).neighborsAlong r.now root side (some position) := by
    rw [Table.neighborsAlong, edgesAlong_eq_append hrest, EdgeSide.farEnds_append]
    rfl
  have hall := (s.tableOf r.table).neighborsAlong_ascending r.now root side start
  rw [hsplit] at hall
  refine ⟨position, hstart, hafter, (List.pairwise_append.mp hall).1, ?_⟩
  intro id
  have hbehind : id ∈ (s.tableOf r.table).neighborsAlong r.now root side (some position) ↔
      id ≠ "" ∧ (s.tableOf r.table).Links r.now side root id ∧ position < side.placeOf root id := by
    rw [Table.mem_neighborsAlong_from, Query.isAfter, decide_eq_true_iff]
  have hboth : id ∈ (s.tableOf r.table).neighborsAlong r.now root side start ↔
      id ∈ (r.pageFrom (s.tableOf r.table) root side limit start).neighbors ∨
        id ∈ (s.tableOf r.table).neighborsAlong r.now root side (some position) := by
    rw [hsplit, List.mem_append]
  constructor
  · intro hid
    obtain ⟨hne, hlinks, hstart⟩ := Table.mem_neighborsAlong_from.mp (hboth.mpr (Or.inl hid))
    refine ⟨hne, hlinks, hstart, ?_⟩
    intro hlt
    exact Std.lt_irrefl ((List.pairwise_append.mp hall).2.2 id hid id (hbehind.mpr ⟨hne, hlinks, hlt⟩))
  · rintro ⟨hne, hlinks, hstart, hle⟩
    rcases hboth.mp (Table.mem_neighborsAlong_from.mpr ⟨hne, hlinks, hstart⟩) with hid | hid
    · exact hid
    · exact absurd (hbehind.mp hid).2.2 hle

/-- Reading a page leaves every row as it is. -/
theorem every_of_page {good : Fields → Prop} {answer : Except GraphError EdgePage} (hs : s.Every good)
    (h : r.page s root side limit cursor = (answer, s')) : s'.Every good := by
  rw [page] at h
  split at h
  · exact (Prod.mk.inj h).2 ▸ hs
  · exact (Prod.mk.inj h).2 ▸ hs.query r.table _

/-! ## Walks between which others write -/

/-- A page, and the store that it was read from. -/
structure Visit where
  store : Store
  page : EdgePage

/-- Reading page after page from a cursor, each under a limit of its own, until a page names no cursor, while between
the pages others use the store. -/
inductive InterleavedWalk (r : EdgeReader) (root : String) (side : EdgeSide) : Store → Option String → List Visit → Prop
  | last {s s' : Store} {cursor : Option String} {limit : Nat} {page : EdgePage} (hl : 0 < limit)
      (h : r.page s root side limit cursor = (.ok page, s')) (hlast : page.cursor = none) :
      InterleavedWalk r root side s cursor [⟨s, page⟩]
  | next {s s' s'' : Store} {cursor : Option String} {limit : Nat} {page : EdgePage} {text : String}
      {visits : List Visit} (hl : 0 < limit) (h : r.page s root side limit cursor = (.ok page, s'))
      (hnext : page.cursor = some text) (hothers : s'.Evolves s'')
      (hrest : InterleavedWalk r root side s'' (some text) visits) :
      InterleavedWalk r root side s cursor (⟨s, page⟩ :: visits)

/-- The neighbors that the pages of a walk returned, in the order in which they were read. -/
def returned (visits : List Visit) : List String := visits.flatMap fun v => v.page.neighbors

/-- Whether a neighbor is linked whenever a page of a walk is read. -/
def IsLinkedThroughout (r : EdgeReader) (root : String) (side : EdgeSide) (visits : List Visit) (id : String) : Prop :=
  ∀ v ∈ visits, (v.store.tableOf r.table).Links r.now side root id

namespace InterleavedWalk

variable {visits : List Visit}

/-- What the rest of a walk returns has its places after the start of the rest. -/
theorem isAfter_of_mem (h : r.InterleavedWalk root side s cursor visits) (hs : s.Every (Fields.IsRowOf fun _ => True))
    (hstart : side.startOf cursor = .ok start) {id : String} (hid : id ∈ returned visits) :
    Query.isAfter start (side.placeOf root id) = true := by
  induction h generalizing start with
  | last hl h hlast =>
    obtain ⟨-, hmem⟩ := window_of_last (hs.isReadable _) hl hstart h hlast
    rw [returned, List.flatMap_singleton, hmem] at hid
    exact hid.2.2
  | next hl h hnext hothers hrest ih =>
    obtain ⟨position, hposition, hafter, -, hmem⟩ := window_of_next (hs.isReadable _) hl hstart h hnext
    rw [returned, List.flatMap_cons, List.mem_append] at hid
    rcases hid with hid | hid
    · exact ((hmem id).mp hid).2.2.1
    · have hlt := ih (hothers.every_isRowOf (every_of_page hs h)) hposition hid
      cases start with
      | none => rfl
      | some first => exact decide_eq_true (List.lt_trans (of_decide_eq_true hafter) (of_decide_eq_true hlt))

/-- What a walk returns strictly ascends. -/
theorem ascending (h : r.InterleavedWalk root side s cursor visits) (hs : s.Every (Fields.IsRowOf fun _ => True))
    (hstart : side.startOf cursor = .ok start) : (returned visits).Pairwise (· < ·) := by
  induction h generalizing start with
  | last hl h hlast =>
    rw [returned, List.flatMap_singleton]
    exact (window_of_last (hs.isReadable _) hl hstart h hlast).1
  | next hl h hnext hothers hrest ih =>
    obtain ⟨position, hposition, -, hascending, hmem⟩ := window_of_next (hs.isReadable _) hl hstart h hnext
    have hlater := hothers.every_isRowOf (every_of_page hs h)
    rw [returned, List.flatMap_cons, List.pairwise_append]
    refine ⟨hascending, ih hlater hposition, ?_⟩
    intro a ha b hb
    have hle := ((hmem a).mp ha).2.2.2
    have hlt : position < side.placeOf root b := of_decide_eq_true (hrest.isAfter_of_mem hlater hposition hb)
    exact side.placeOf_lt_iff.mp (Std.lt_of_le_of_lt (Std.not_lt.mp hle) hlt)

/-- A neighbor that is linked throughout and comes after the start is returned: its place is in the window of the first
page or after the place where the next page begins. -/
theorem mem_of_linked (h : r.InterleavedWalk root side s cursor visits) (hs : s.Every (Fields.IsRowOf fun _ => True))
    (hstart : side.startOf cursor = .ok start) {id : String} (hne : id ≠ "")
    (hlinks : r.IsLinkedThroughout root side visits id) (hafter : Query.isAfter start (side.placeOf root id) = true) :
    id ∈ returned visits := by
  induction h generalizing start with
  | last hl h hlast =>
    obtain ⟨-, hmem⟩ := window_of_last (hs.isReadable _) hl hstart h hlast
    rw [returned, List.flatMap_singleton, hmem]
    exact ⟨hne, hlinks _ (List.mem_cons_self ..), hafter⟩
  | next hl h hnext hothers hrest ih =>
    obtain ⟨position, hposition, -, -, hmem⟩ := window_of_next (hs.isReadable _) hl hstart h hnext
    rw [returned, List.flatMap_cons, List.mem_append]
    by_cases hlt : position < side.placeOf root id
    · right
      exact ih (hothers.every_isRowOf (every_of_page hs h)) hposition (fun v hv => hlinks v (List.mem_cons_of_mem _ hv))
        (decide_eq_true hlt)
    · left
      exact (hmem id).mpr ⟨hne, hlinks _ (List.mem_cons_self ..), hafter, hlt⟩

/-- What a page returns is linked when it is read. -/
theorem links_of_mem (h : r.InterleavedWalk root side s cursor visits) (hs : s.Every (Fields.IsRowOf fun _ => True))
    (hstart : side.startOf cursor = .ok start) {v : Visit} (hv : v ∈ visits) {id : String}
    (hid : id ∈ v.page.neighbors) : id ≠ "" ∧ (v.store.tableOf r.table).Links r.now side root id := by
  induction h generalizing start with
  | last hl h hlast =>
    obtain ⟨-, hmem⟩ := window_of_last (hs.isReadable _) hl hstart h hlast
    obtain rfl := List.mem_singleton.mp hv
    obtain ⟨hne, hlinks, -⟩ := (hmem id).mp hid
    exact ⟨hne, hlinks⟩
  | next hl h hnext hothers hrest ih =>
    obtain ⟨position, hposition, -, -, hmem⟩ := window_of_next (hs.isReadable _) hl hstart h hnext
    rcases List.mem_cons.mp hv with rfl | hv
    · obtain ⟨hne, hlinks, -⟩ := (hmem id).mp hid
      exact ⟨hne, hlinks⟩
    · exact ih (hothers.every_isRowOf (every_of_page hs h)) hposition hv

end InterleavedWalk

/-- A walk over a store that came about, which begins without a cursor and ends with none, is stable whatever others do
between its pages and whatever the limits of these are:
1. No neighbor is returned twice.
2. A neighbor that is linked throughout, and whose id is not empty, is returned exactly once.
3. What a page returns is linked when it is read. -/
theorem interleaved_walk_is_stable {visits : List Visit} (hs : s.Reached)
    (h : r.InterleavedWalk root side s none visits) :
    (returned visits).Nodup ∧
      (∀ id, id ≠ "" → r.IsLinkedThroughout root side visits id → (returned visits).count id = 1) ∧
      ∀ v ∈ visits, ∀ id ∈ v.page.neighbors, id ≠ "" ∧ (v.store.tableOf r.table).Links r.now side root id := by
  have hrows := hs.every_isRowOf
  have hnodup : (returned visits).Nodup := (h.ascending hrows startOf_none).imp fun {_ _} hlt => Std.ne_of_lt hlt
  refine ⟨hnodup, ?_, ?_⟩
  · intro id hne hlinks
    rw [hnodup.count, if_pos (h.mem_of_linked hrows startOf_none hne hlinks rfl)]
  · intro v hv id hid
    exact h.links_of_mem hrows startOf_none hv hid

end EdgeReader

namespace Sample

/-- The store after the first page of whom the new user follows was read and another caller had that user follow two
others. -/
def joinedMeanwhile : Store := (users.upsert created.queried (later 0) ⟨5, 0⟩ "User" (joining "eve" "follows")).2.1

/-- What the other caller left. -/
theorem joinedMeanwhile_eq : joinedMeanwhile =
    (writeChunk (putNew (Store.empty "edge-dataType") users.table
      (Branch.recordsOf [newcomers (users.grower ⟨0, 0⟩).stamp])).2.queried users.table
      users.settings.write.retryPolicy.retries
      ((Branch.recordsOf [joined (users.grower ⟨5, 0⟩).stamp "eve" follows]).map Record.toAttributes)).2 := by
  rw [joinedMeanwhile, ← created_eq]
  exact @upsert_joining users.schema users.paired follows "eve" (by decide) (by decide) Store _ created.queried ⟨5, 0⟩

theorem joinedMeanwhile_evolves : created.queried.Evolves joinedMeanwhile :=
  .upsert .refl users (later 0) ⟨5, 0⟩ "User" (joining "eve" "follows")

/-- The first page of one row ends with the row of the first of the two. -/
theorem cursor_of_first_page : ∃ row,
    (((created.tableOf users.table).along "eve" follows none).take 1).getLast? = some row ∧
      row.key = ⟨"eve", "follow::gus"⟩ ∧
      ((users.reader 5).pageFrom (created.tableOf users.table) "eve" follows 1 none).cursor =
        some (Cursor.encode (follows.view.startKey row)) := by
  have hlast : (((created.tableOf users.table).along "eve" follows none).take 1).getLast?.map Row.key =
      some ⟨"eve", "follow::gus"⟩ ∧ ((created.tableOf users.table).along "eve" follows none).length = 2 := by
    rw [created_eq]
    decide +kernel
  obtain ⟨row, hrow, hkey⟩ := Option.map_eq_some_iff.mp hlast.1
  refine ⟨row, hrow, hkey, ?_⟩
  rw [EdgeReader.pageFrom]
  dsimp only
  rw [hlast.2, hrow]
  rfl

theorem startOf_first_cursor {row : Row}
    (hrow : (((created.tableOf users.table).along "eve" follows none).take 1).getLast? = some row)
    (hkey : row.key = ⟨"eve", "follow::gus"⟩) :
    follows.startOf (some (Cursor.encode (follows.view.startKey row))) = .ok (some ["eve", "follow::gus"]) := by
  have hplace : follows.view.place row = row.key.position := rfl
  rw [EdgeSide.startOf, Cursor.decodeOptional_encode]
  dsimp only
  rw [(EdgeReader.along_continued hrow).1, hplace, hkey]
  rfl

/-- Behind the first page are the one who was followed throughout and one of the two who came meanwhile. -/
theorem page_behind_gus :
    let page := (users.reader 5).pageFrom (joinedMeanwhile.tableOf users.table) "eve" follows 2
      (some ["eve", "follow::gus"])
    page.cursor = none ∧ page.neighbors = ["hal", "ivy"] := by
  rw [joinedMeanwhile_eq]
  decide +kernel

theorem hal_isLinkedThroughout (first second : EdgePage) : (users.reader 5).IsLinkedThroughout "eve" follows
    [⟨created, first⟩, ⟨joinedMeanwhile, second⟩] "hal" := by
  have hboth : "hal" ∈ (created.tableOf users.table).neighborsAlong 5 "eve" follows none ∧
      "hal" ∈ (joinedMeanwhile.tableOf users.table).neighborsAlong 5 "eve" follows none := by
    rw [joinedMeanwhile_eq, created_eq]
    decide +kernel
  exact List.forall_mem_cons.mpr ⟨(Table.mem_neighborsAlong_iff.mp hboth.1).2,
    List.forall_mem_singleton.mpr (Table.mem_neighborsAlong_iff.mp hboth.2).2⟩

/-- A walk over whom the new user follows, between the two pages of which the other caller wrote, returns the one who
was followed throughout once; of the two who came meanwhile it returns the one behind its first page. -/
theorem walk_beside_writer : created.Reached ∧
    ∃ visits, (users.reader 5).InterleavedWalk "eve" follows created none visits ∧
      EdgeReader.returned visits = ["gus", "hal", "ivy"] ∧ (EdgeReader.returned visits).Nodup ∧
      "hal" ≠ "" ∧ (users.reader 5).IsLinkedThroughout "eve" follows visits "hal" ∧
      (EdgeReader.returned visits).count "hal" = 1 := by
  have hrows := joinedMeanwhile_evolves.every_isRowOf created_reached.every_isRowOf
  have hindex : users.settings.store.edgeIndexName = joinedMeanwhile.indexName := by
    rw [joinedMeanwhile_eq]
    decide +kernel
  obtain ⟨row, hrow, hkey, hcursor⟩ := cursor_of_first_page
  have hfirst : (users.reader 5).page created "eve" follows 1 none = _ :=
    EdgeReader.page_eq "eve" created_indexName (created_reached.isReadable _) (by decide) EdgeReader.startOf_none
  have hsecond : (users.reader 5).page joinedMeanwhile "eve" follows 2
      (some (Cursor.encode (follows.view.startKey row))) = _ :=
    EdgeReader.page_eq "eve" hindex (hrows.isReadable _) (by decide) (startOf_first_cursor hrow hkey)
  have hwalk := EdgeReader.InterleavedWalk.next (by decide) hfirst hcursor joinedMeanwhile_evolves
    (.last (by decide) hsecond page_behind_gus.1)
  obtain ⟨hnodup, honce, -⟩ := EdgeReader.interleaved_walk_is_stable created_reached hwalk
  have hlinked := hal_isLinkedThroughout
  refine ⟨created_reached, _, hwalk, ?_, hnodup, by decide, hlinked _ _, honce "hal" (by decide) (hlinked _ _)⟩
  have hgus : ((users.reader 5).pageFrom (created.tableOf users.table) "eve" follows 1 none).neighbors = ["gus"] := by
    rw [created_eq]
    decide +kernel
  rw [EdgeReader.returned, List.flatMap_cons, List.flatMap_singleton]
  exact congr (congrArg (· ++ ·) hgus) page_behind_gus.2

/-- A walk over whom a follower of the user with the empty id follows returns nothing, although that user is linked
throughout. -/
theorem unnamed_is_not_returned : unnamedFollowed.Reached ∧
    ∃ visits, (users.reader 5).InterleavedWalk "abe" follows unnamedFollowed none visits ∧
      (users.reader 5).IsLinkedThroughout "abe" follows visits "" ∧ (EdgeReader.returned visits).count "" = 0 := by
  have hindex : users.settings.store.edgeIndexName = unnamedFollowed.indexName := by
    rw [unnamedFollowed_eq]
    decide +kernel
  have hpage : (users.reader 5).page unnamedFollowed "abe" follows 1 none = _ :=
    EdgeReader.page_eq "abe" hindex (unnamedFollowed_reached.isReadable _) (by decide) EdgeReader.startOf_none
  have hends : ((users.reader 5).pageFrom (unnamedFollowed.tableOf users.table) "abe" follows 1 none).cursor = none ∧
      ((users.reader 5).pageFrom (unnamedFollowed.tableOf users.table) "abe" follows 1 none).neighbors = [] := by
    rw [unnamedFollowed_eq]
    decide +kernel
  refine ⟨unnamedFollowed_reached, _, .last (by decide) hpage hends.1, ?_, ?_⟩
  · have hlinks : (unnamedFollowed.tableOf users.table).Links 5 follows "abe" "" := by
      rw [Table.links_iff, unnamedFollowed_eq]
      decide +kernel
    exact List.forall_mem_singleton.mpr hlinks
  · rw [EdgeReader.returned, List.flatMap_singleton]
    exact congrArg (List.count "") hends.2

end Sample

end PropertyGraph
