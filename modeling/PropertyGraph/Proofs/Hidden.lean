import PropertyGraph.Proofs.ChunkFates
import PropertyGraph.Proofs.Expiry
import PropertyGraph.Proofs.PayloadTree
import PropertyGraph.Proofs.Shown
import PropertyGraph.Proofs.TwoReads

/-!
# Deleted entities stay hidden

Once every row in the partition of an id has expired (`Table.HasEnded`), no reading finds the entity: its node is not
live, and neither are the edges that lie in its partition, from whichever end they are followed
(`Engine.hides_of_hasEnded`). A deletion without errors ends the partition. Whatever is done afterwards, a partition
that has ended stays so while nothing is written under its id, since later deletions only bring expiry forward
(`Store.GoesOnWithout.hasEnded`). So what was deleted stays hidden (`Engine.deleted_stays_hidden`).
-/

namespace PropertyGraph

/-! ## Partitions that have ended -/

/-- Whether every row in the partition of an id expires no later than at a time. -/
def Table.HasEnded (t : Table) (id : String) (time : Int64) : Prop :=
  ∀ row ∈ t.rows, row.key.id = id → row.expiry ≤ (time.toInt : WithTop Int)

/-- The row of a record expires when the record does. -/
theorem Row.expiry_le_iff {row : Row} {r : Record} (hr : r.IsStorable) (h : row.attributes = r.toAttributes)
    {time : Int64} : row.expiry ≤ (time.toInt : WithTop Int) ↔ isOver r.ttl time = true := by
  rw [expiry, h, Record.ttl_toAttributes hr]
  cases r.ttl with
  | none =>
    exact ⟨fun hle => absurd hle (not_le_of_gt (WithTop.coe_lt_top _)), fun hover => absurd hover Bool.false_ne_true⟩
  | some ttl => rw [isOver, decide_eq_true_iff, WithTop.coe_le_coe, Int64.le_iff_toInt_le]

namespace Table.HasEnded

variable {t t' : Table} {id : String} {time now : Int64} {q : Record → Prop}

/-- Writing records of other partitions does not touch the one that has ended. -/
theorem wrote (h : t.HasEnded id time) {records : List Record} (hw : t.Wrote t' records)
    (hr : ∀ r ∈ records, r.IsStorable) (hother : ∀ r ∈ records, r.key.id ≠ id) : t'.HasEnded id time := by
  intro row hrow hid
  rcases hw.rows row hrow with ⟨r, hmem, hattributes⟩ | ⟨hold, -⟩
  · rw [Row.key_of_attributes hattributes (hr r hmem)] at hid
    exact absurd hid (hother r hmem)
  · exact h row hold hid

/-- A partition that has ended stays so while rows only expire sooner. -/
theorem expiresNoLater (h : t.HasEnded id time) (ht : t.ExpiresNoLater t') : t'.HasEnded id time := by
  intro row hrow hid
  obtain ⟨old, hold, hlater⟩ := ht.exists_row hrow
  exact le_trans hlater.2 (h old hold (hlater.key_eq ▸ hid))

/-- A record in a partition that has ended is over. -/
theorem isOver_ttl (h : t.HasEnded id time) {r : Record} (hr : t.Has r) (hid : r.key.id = id) (hlater : time ≤ now) :
    isOver r.ttl now = true := by
  obtain ⟨hstorable, row, hrow, hattributes⟩ := hr
  have hkey := Row.key_of_attributes hattributes hstorable
  exact isOver_of_le ((Row.expiry_le_iff hstorable hattributes).mp (h row hrow (hkey ▸ hid))) hlater

/-- In a partition that has ended no node is live. -/
theorem liveNode?_eq_none (h : t.HasEnded id time) (ht : t.Every (Fields.IsRowOf q)) (hlater : time ≤ now) :
    t.liveNode? now id = none := by
  by_contra hsome
  obtain ⟨n, hn⟩ := Option.ne_none_iff_exists'.mp hsome
  obtain ⟨attributes, hattributes, hnode⟩ := Option.bind_eq_some_iff.mp hn
  obtain ⟨row, hrow, rfl⟩ := Option.map_eq_some_iff.mp hattributes
  obtain ⟨hread, hlive⟩ := Fields.liveNode?_eq_some_iff.mp hnode
  have hhas := ht.has_of_row (key_of_get? hrow).1 hread
  exact Bool.false_ne_true (hlive.symm.trans (h.isOver_ttl hhas (id_of_liveNode? hn) hlater))

/-- No live edge lies in a partition that has ended. -/
theorem not_links (h : t.HasEnded id time) (ht : t.Every (Fields.IsRowOf q)) (hlater : time ≤ now) {side : EdgeSide}
    {near far : String} (hend : (if side.principal then near else far) = id) : ¬ t.Links now side near far := by
  rintro ⟨row, hrow, e, hread, hlive, -, rfl, rfl⟩
  have hid : (Record.edge e).key.id = id := by
    rw [← hend, EdgeSide.near, EdgeSide.far]
    cases side.principal <;> rfl
  exact Bool.false_ne_true (hlive.symm.trans (h.isOver_ttl (ht.has_of_row hrow hread) hid hlater))

/-- From a node whose partition has ended no edge leads along a side on which edges lie in the partition of the node. -/
theorem neighborsAlong_eq_nil (h : t.HasEnded id time) (ht : t.Every (Fields.IsRowOf q)) (hlater : time ≤ now)
    {side : EdgeSide} (hp : side.principal = true) : t.neighborsAlong now id side none = [] :=
  List.eq_nil_iff_forall_not_mem.mpr fun _ hmem => h.not_links ht hlater (if_pos hp) (mem_neighborsAlong_iff.mp hmem).2

/-- Along a side on which edges lie in the partition at the other end, none leads to an id whose partition has ended. -/
theorem not_mem_neighborsAlong (h : t.HasEnded id time) (ht : t.Every (Fields.IsRowOf q)) (hlater : time ≤ now)
    {side : EdgeSide} (hp : side.principal = false) (root : String) :
    id ∉ t.neighborsAlong now root side none := fun hmem =>
  h.not_links ht hlater (if_neg (ne_true_of_eq_false hp)) (mem_neighborsAlong_iff.mp hmem).2

/-- What callers see of some ids is not what has ended. -/
theorem not_mem_shown (h : t.HasEnded id time) (ht : t.Every (Fields.IsRowOf q)) (hlater : time ≤ now)
    {ids : List String} {out : Fields} (hout : out ∈ t.shown now ids) : out.string? Attribute.id ≠ some id := by
  obtain ⟨n, hn, rfl⟩ := List.mem_map.mp hout
  obtain ⟨other, -, hlive⟩ := List.mem_filterMap.mp hn
  rw [string?_id_toOutput ht hlive]
  rintro heq
  rw [Option.some.inj heq, h.liveNode?_eq_none ht hlater] at hlive
  exact absurd hlive.symm (Option.some_ne_none n)

end Table.HasEnded

/-! ## Reading -/

/-- Whether no reading of an engine at a time finds an entity. -/
structure Engine.Hides (e : Engine) (s : Store) (now : Int64) (id : String) : Prop where
  /-- To get it answers with nothing, and reports that there is no such node. -/
  get : (e.get s now id).1.data = none ∧ (GraphError.noNode id).message ∈ (e.get s now id).1.errors
  /-- Where no request is throttled, nothing else is reported. -/
  get_only : s.throttledCalls = 0 → (e.get s now id).1 = .failed none (.noNode id)
  connection : ∀ r out, (e.connection s now r).1.data = some out → out.string? Attribute.id ≠ some id
  connectionPlural : ∀ r, ∀ out ∈ (e.connectionPlural s now r).1.data.edges, out.string? Attribute.id ≠ some id
  /-- Along a principal side it has no neighbors, from whatever cursor they are read. -/
  forth : ∀ side limit cursor page, side.principal = true →
    ((e.reader now).page s id side limit cursor).1 = .ok page ∨
      ((e.reader now).all s id side limit cursor).1 = .ok page →
    page.neighbors = []
  /-- From the start they are read without a fault. -/
  forth_ok : ∀ side limit, side.principal = true → 0 < limit → ∃ page found,
    ((e.reader now).page s id side limit none).1 = .ok page ∧ ((e.reader now).all s id side limit none).1 = .ok found
  /-- Along a side that is not principal it is no neighbor. -/
  back : ∀ side root limit cursor page, side.principal = false →
    ((e.reader now).page s root side limit cursor).1 = .ok page ∨
      ((e.reader now).all s root side limit cursor).1 = .ok page →
    id ∉ page.neighbors

namespace EdgeReader

variable {r : EdgeReader} {s : Store} {root : String} {side : EdgeSide} {limit : Nat} {cursor : Option String}
  {page : EdgePage}

/-- A page, or all pages, have only neighbors that are linked to their root. -/
theorem neighbors_subset_of_ok
    (h : (r.page s root side limit cursor).1 = .ok page ∨ (r.all s root side limit cursor).1 = .ok page) :
    page.neighbors ⊆ (s.tableOf r.table).neighborsAlong r.now root side none := by
  rcases h with h | h
  · exact neighbors_subset_of_page (Prod.ext h rfl)
  · exact neighbors_subset_of_all (Prod.ext h rfl)

/-- The name of the edge index makes no difference to what is read from a query. -/
theorem edgesFrom_withIndex (r : EdgeReader) (indexName : String) (s : Store) (q : Query) :
    ({ r with indexName } : EdgeReader).edgesFrom s q = r.edgesFrom s q := by
  have hfetch (s : Store) (q : Query) : ({ r with indexName } : EdgeReader).fetch s q = r.fetch s q := rfl
  induction s, q using @EdgeReader.edgesFrom.induct Store _ r with
  | case1 s q e he => rw [edgesFrom_error he, edgesFrom_error ((congrArg Prod.fst (hfetch s q)).trans he), hfetch]
  | case2 s q f hf hlast =>
    rw [edgesFrom_last hf hlast, edgesFrom_last ((congrArg Prod.fst (hfetch s q)).trans hf) hlast, hfetch]
  | case3 s q f hf next hnext _ _ _ ih =>
    rw [edgesFrom_next hf hnext, edgesFrom_next ((congrArg Prod.fst (hfetch s q)).trans hf) hnext, hfetch, ih]

/-- Along a principal side the edges are read without a fault, whatever name of the edge index the reader has. -/
theorem ok_of_principal (r : EdgeReader) (s : Store) (root : String) (hp : side.principal = true) (hl : 0 < limit)
    (hr : (s.tableOf r.table).IsReadable) :
    ∃ page found, (r.page s root side limit none).1 = .ok page ∧ (r.all s root side limit none).1 = .ok found := by
  have hquery : ∀ key, ({ r with indexName := s.indexName } : EdgeReader).query root side limit key =
      r.query root side limit key := by
    intro key
    simp only [query, hp, if_true]
  have hpage : ({ r with indexName := s.indexName } : EdgeReader).page s root side limit none = _ :=
    page_eq root rfl hr hl startOf_none
  obtain ⟨s', hall, -⟩ := all_eq (r := { r with indexName := s.indexName }) root side rfl hr hl startOf_none
  rw [EdgeReader.page, Cursor.decodeOptional] at hpage
  rw [EdgeReader.all, Cursor.decodeOptional] at hall
  dsimp only at hpage hall
  rw [hquery] at hpage hall
  rw [edgesFrom_withIndex] at hall
  exact ⟨_, _, congrArg Prod.fst hpage, congrArg Prod.fst hall⟩

end EdgeReader

/-- An entity is hidden once its partition has ended. -/
theorem Engine.hides_of_hasEnded {e : Engine} {s : Store} {id : String} {time now : Int64} {q : Record → Prop}
    (hs : s.Every (Fields.IsRowOf q)) (h : (s.tableOf e.table).HasEnded id time) (hlater : time ≤ now) :
    e.Hides s now id := by
  have hrows := hs e.table
  have hnone : (e.look s now [id]).1.nodes = [] := by
    refine List.eq_nil_iff_forall_not_mem.mpr fun n hn => ?_
    obtain ⟨hid, hlive⟩ := mem_nodes_of_hydrate hn
    rw [List.mem_singleton.mp hid, h.liveNode?_eq_none hrows hlater] at hlive
    exact absurd hlive.symm (Option.some_ne_none n)
  have hget : (e.get s now id).1 = .withErrors none ((e.look s now [id]).1.errors ++ [.noNode id]) := by
    rw [Engine.get]
    dsimp only
    rw [hnone]
  constructor
  case get =>
    rw [hget]
    exact ⟨rfl, List.mem_map_of_mem (List.mem_append_right _ (List.mem_singleton.mpr rfl))⟩
  case get_only =>
    intro hfault
    obtain ⟨hsize, hmost⟩ := (Settings.ranges_of_validate e.valid).1
    rw [hget, Engine.look, hydrate_eq now [id] (hs.isReadable e.table) hfault hsize hmost]
    rfl
  case connection =>
    intro r out hout
    obtain ⟨side, root, -, hshown⟩ := Engine.mem_shown_of_connection hout
    exact h.not_mem_shown hrows hlater hshown
  case connectionPlural =>
    intro r out hout
    obtain ⟨side, root, -, hshown⟩ := Engine.mem_shown_of_connectionPlural hout
    exact h.not_mem_shown hrows hlater hshown
  case forth =>
    intro side limit cursor page hp hpage
    have hsubset := EdgeReader.neighbors_subset_of_ok hpage
    exact List.subset_nil.mp ((h.neighborsAlong_eq_nil hrows hlater hp) ▸ hsubset)
  case forth_ok => exact fun side limit hp hl => (e.reader now).ok_of_principal s id hp hl (hs.isReadable e.table)
  case back =>
    intro side root limit cursor page hp hpage hmem
    exact h.not_mem_neighborsAlong hrows hlater hp root (EdgeReader.neighbors_subset_of_ok hpage hmem)

/-! ## Writing some records -/

/-- Whether a store came from another one by writing some of these records in a table. -/
def Store.WroteSome (s s' : Store) (table : String) (records : List Record) : Prop :=
  (∃ stored, stored ⊆ records ∧ (s.tableOf table).Wrote (s'.tableOf table) stored) ∧
    ∀ other, other ≠ table → s'.tableOf other = s.tableOf other

namespace Store.WroteSome

variable {s s' s'' : Store} {table : String} {records others : List Record}

theorem refl (s : Store) (table : String) (records : List Record) : s.WroteSome s table records :=
  ⟨⟨[], List.nil_subset records, .refl _⟩, fun _ _ => rfl⟩

/-- Writing some records and then some others. -/
theorem trans (h : s.WroteSome s' table records) (h' : s'.WroteSome s'' table others) :
    s.WroteSome s'' table (records ++ others) := by
  obtain ⟨⟨stored, hstored, hwrote⟩, hsame⟩ := h
  obtain ⟨⟨more, hmore, hwrote'⟩, hsame'⟩ := h'
  exact ⟨⟨stored ++ more, List.append_subset.mpr ⟨List.subset_append_of_subset_left _ hstored,
    List.subset_append_of_subset_right _ hmore⟩,
    hwrote.trans hwrote'⟩, fun other ho => (hsame' other ho).trans (hsame other ho)⟩

/-- Writing records of other partitions, in whatever table, does not touch a partition that has ended. -/
theorem hasEnded (h : s.WroteSome s' table records) {other id : String} {time : Int64}
    (hended : (s.tableOf other).HasEnded id time) (hr : ∀ r ∈ records, r.IsStorable)
    (hids : ∀ r ∈ records, r.key.id ≠ id) : (s'.tableOf other).HasEnded id time := by
  obtain ⟨⟨stored, hstored, hwrote⟩, hsame⟩ := h
  by_cases ho : other = table
  · rw [ho] at hended ⊢
    exact hended.wrote hwrote (fun r hmem => hr r (hstored hmem)) fun r hmem => hids r (hstored hmem)
  · rw [hsame other ho]
    exact hended

end Store.WroteSome

/-- To put a row that must be new writes its record or nothing, whatever faults are due. -/
theorem Store.wroteSome_put (s : Store) (table : String) {r : Record} (hr : r.IsStorable) :
    s.WroteSome (s.put table r.toAttributes .ifNotExists).2 table [r] := by
  rw [put_eq_settle, unlessThrottled]
  split
  · exact .refl s table [r]
  · rcases s.settle_cases table hr with ⟨-, hsettle⟩ | ⟨-, -, hsettle⟩ | ⟨-, -, row, hattributes, hkey, hsettle⟩
    · rw [hsettle]
      exact .refl s table [r]
    · rw [hsettle]
      exact .refl s table [r]
    · rw [hsettle]
      refine ⟨⟨[r], List.Subset.refl _, ?_⟩, fun other ho => by rw [write, tableOf_withTable, if_neg ho]⟩
      rw [tableOf_write]
      exact .insert _ hattributes hkey

/-- To put rows that must be new writes some of their records, whatever faults are due. -/
theorem wroteSome_putNew (s : Store) (table : String) {records : List Record} (hr : ∀ r ∈ records, r.IsStorable) :
    s.WroteSome (putNew s table records).2 table records := by
  induction records generalizing s with
  | nil => exact .refl s table []
  | cons r rest ih =>
    have hrest := ih (s.put table r.toAttributes .ifNotExists).2 fun other ho => hr other (List.mem_cons_of_mem _ ho)
    have hcons : (putNew s table (r :: rest)).2 =
        (putNew (s.put table r.toAttributes .ifNotExists).2 table rest).2 := by
      rw [putNew, Store.storage_put]
      dsimp only
      split <;> rfl
    rw [hcons]
    exact (s.wroteSome_put table (hr r (List.mem_cons_self ..))).trans hrest

/-- To write records in chunks writes some of them, whatever faults are due. -/
theorem wroteSome_writeRecords (s : Store) (table : String) {size : Nat} (hsize : 0 < size ∧ size ≤ Store.mostWrites)
    (retries : Nat) {records : List Record} (hr : ∀ r ∈ records, r.IsStorable) :
    s.WroteSome (writeRecords s table size retries records).2 table records := by
  obtain ⟨fates, s', hwrite, hfates, hstored, -, -⟩ := writeRecords_fates s table hsize retries hr
  have hsubset : fates.flatMap ChunkFate.stored ⊆ records := by
    rw [← chunks_flatten size records, ← hfates, ← List.flatMap_def]
    intro r hmem
    obtain ⟨f, hf, hin⟩ := List.mem_flatMap.mp hmem
    exact List.mem_flatMap.mpr ⟨f, hf, List.mem_append_left _ (List.mem_append_left _ hin)⟩
  rw [hwrite]
  refine ⟨⟨_, hsubset, ?_⟩, hstored.others⟩
  rw [hstored.stored]
  exact Table.wrote_withRecords _ fun r hmem => hr r (hsubset hmem)

/-! ## Going on without an id -/

namespace Engine

variable {s : Store} {table id : String} {time : Int64}

/-- To create without drawing an id leaves its partition as it is. -/
theorem hasEnded_create (e : Engine) (h : (s.tableOf table).HasEnded id time) (ids : IdSource) (now : Instant)
    (typeName : String) (r : CreateRequest) (hnew : id ∉ ids.drawnSince (e.create s ids now typeName r).2.2) :
    ((e.create s ids now typeName r).2.1.tableOf table).HasEnded id time := by
  rcases e.create_cases s ids now typeName r with ⟨answer, ids', hcreate, -⟩ | ⟨branch, rest, ids', hlevel⟩
  · rwa [hcreate]
  · obtain ⟨hgrown, -, hgives⟩ := Grower.level_eq_tree hlevel
    rw [create_of_level hlevel] at hnew ⊢
    refine (wroteSome_putNew s e.table (Branch.isStorable_of_areGrown hgrown)).hasEnded h
      (Branch.isStorable_of_areGrown hgrown) ?_
    rintro record hrecord rfl
    exact hnew (hgives.subset (Branch.id_mem_of_mem_recordsOf hgrown record hrecord))

/-- To create or overwrite without naming or drawing an id leaves its partition as it is. -/
theorem hasEnded_upsert (e : Engine) (h : (s.tableOf table).HasEnded id time) (ids : IdSource) (now : Instant)
    (typeName : String) (r : UpsertRequest) (hnew : id ∉ ids.drawnSince (e.upsert s ids now typeName r).2.2)
    (hother : r.target.bind Target.id ≠ some id) :
    ((e.upsert s ids now typeName r).2.1.tableOf table).HasEnded id time := by
  rcases e.upsert_cases s ids now typeName r with ⟨answer, ids', hupsert, -⟩ | ⟨branch, rest, ids', hlevel⟩
  · rwa [hupsert]
  · obtain ⟨hgrown, -, hgives⟩ := Grower.level_eq_tree hlevel
    rw [upsert_of_level hlevel] at hnew ⊢
    refine (wroteSome_writeRecords s e.table (Settings.batchSize_of_validate e.valid) _
      (Branch.isStorable_of_areGrown hgrown)).hasEnded h
      (Branch.isStorable_of_areGrown hgrown) ?_
    rintro record hrecord rfl
    rcases List.mem_append.mp (hgives.subset (Branch.id_mem_of_mem_recordsOf hgrown record hrecord)) with
      hgiven | hdrawn
    · exact hother (Option.mem_toList.mp hgiven)
    · exact hnew hdrawn

end Engine

theorem DeleteCall.reached_answer {s : Store} (c : DeleteCall) (hs : s.Reached) : (c.answer s).2.Reached := by
  rw [answer]
  split
  · exact hs.deleteMany c.engine c.now c.request
  · exact hs.delete c.engine c.now c.request

/-- What becomes of a store by calls that neither draw an id nor name it to overwrite its node, and by faults that are
set up in between. -/
inductive Store.GoesOnWithout (id : String) (s : Store) : Store → Prop
  | refl : GoesOnWithout id s s
  | create {s' : Store} (h : GoesOnWithout id s s') (e : Engine) (ids : IdSource) (now : Instant) (typeName : String)
      (r : CreateRequest) (hnew : id ∉ ids.drawnSince (e.create s' ids now typeName r).2.2) :
      GoesOnWithout id s (e.create s' ids now typeName r).2.1
  | upsert {s' : Store} (h : GoesOnWithout id s s') (e : Engine) (ids : IdSource) (now : Instant) (typeName : String)
      (r : UpsertRequest) (hnew : id ∉ ids.drawnSince (e.upsert s' ids now typeName r).2.2)
      (hother : r.target.bind Target.id ≠ some id) : GoesOnWithout id s (e.upsert s' ids now typeName r).2.1
  | delete {s' : Store} (h : GoesOnWithout id s s') (c : DeleteCall) : GoesOnWithout id s (c.answer s').2
  | throttling {s' : Store} (h : GoesOnWithout id s s') (calls : Nat) : GoesOnWithout id s (s'.throttling calls)
  | leavingUndone {s' : Store} (h : GoesOnWithout id s s') (rounds : Nat) : GoesOnWithout id s (s'.leavingUndone rounds)
  | rejecting {s' : Store} (h : GoesOnWithout id s s') (other : String) : GoesOnWithout id s (s'.rejecting other)

namespace Store.GoesOnWithout

variable {s s' : Store} {id : String}

/-- A store that came about and goes on is one that came about. -/
theorem reached (h : s.GoesOnWithout id s') (hs : s.Reached) : s'.Reached := by
  induction h with
  | refl => exact hs
  | create _ e ids now typeName r _ ih => exact ih.create e ids now typeName r
  | upsert _ e ids now typeName r _ _ ih => exact ih.upsert e ids now typeName r
  | delete _ c ih => exact c.reached_answer ih
  | throttling _ calls ih => exact ih.throttling calls
  | leavingUndone _ rounds ih => exact ih.leavingUndone rounds
  | rejecting _ other ih => exact ih.rejecting other

/-- A partition that has ended stays so in a store that goes on without its id. -/
theorem hasEnded (h : s.GoesOnWithout id s') {table : String} {time : Int64}
    (hended : (s.tableOf table).HasEnded id time) : (s'.tableOf table).HasEnded id time := by
  induction h with
  | refl => exact hended
  | create _ e ids now typeName r hnew ih => exact e.hasEnded_create ih ids now typeName r hnew
  | upsert _ e ids now typeName r hnew hother ih => exact e.hasEnded_upsert ih ids now typeName r hnew hother
  | @delete s' _ c ih =>
    obtain ⟨marked, hmarks, hdeleted⟩ := c.answer_marks s'
    exact ih.expiresNoLater <|
      hmarks.expiresNoLater (fun row hrow hmarked => (Row.expiry_of_isDeletedByAny (hdeleted row hrow hmarked)).2.2)
        table
  | throttling _ calls ih => exact ih
  | leavingUndone _ rounds ih => exact ih
  | rejecting _ other ih => exact ih

end Store.GoesOnWithout

/-! ## Deletions -/

/-- A call without errors ends the partitions that it names, by its time where it writes no later time. -/
theorem DeleteCall.hasEnded_answer {c : DeleteCall} {s : Store} {id : String} (hok : (c.answer s).1.errors = [])
    (hid : id ∈ c.ids) (httl : c.ttl ≤ c.now) : ((c.answer s).2.tableOf c.table).HasEnded id c.now := by
  intro row hrow hkey
  have hexpiry := expiry_le_of_answer hok hrow (hkey ▸ hid)
  rwa [toInt_max, max_eq_right (Int64.le_iff_toInt_le.mp httl)] at hexpiry

namespace Engine

variable {e : Engine} {s s' : Store} {now later : Int64} {r : DeleteRequest} {id : String}

/-- A deleted entity stays hidden. In a store that came about, after a deletion without errors that writes no later
time than its own, the entity is hidden from then on, at any time, from every engine on the same table, and in every
later store: whatever is created, overwritten and deleted, and whatever faults are due, so long as its id is not drawn
again and nothing is written under it. -/
theorem deleted_stays_hidden (hs : s.Reached) (hid : r.target.namedId? = some id)
    (herrors : (e.delete s now r).1.errors = []) (httl : e.deletionTtl now r ≤ now)
    (hon : (e.delete s now r).2.GoesOnWithout id s') {reader : Engine} (htable : reader.table = e.table)
    (hlater : now ≤ later) : reader.Hides s' later id := by
  have hrows := (hon.reached (hs.delete e now r)).every_isRowOf
  have hended :=
    hon.hasEnded (DeleteCall.hasEnded_answer (c := ⟨e, now, r, false⟩) herrors (Option.mem_toList.mpr hid) httl)
  exact hides_of_hasEnded hrows (htable ▸ hended) hlater

end Engine

namespace Sample

/-- Deleted at once, one of those whom the new user follows is hidden at any time after the new user came to follow two
others. -/
theorem gus_stays_hidden :
    created.Reached ∧ leaving.request.target.namedId? = some "gus" ∧
    (users.delete created 5 leaving.request).1.errors = [] ∧
      users.deletionTtl 5 leaving.request ≤ 5 ∧
      ∃ s', (users.delete created 5 leaving.request).2.GoesOnWithout "gus" s' ∧ users.Hides s' 9 "gus" := by
  have herrors : (users.delete created 5 leaving.request).1.errors = [] := by
    obtain ⟨s', hdelete, -⟩ :=
      softDelete_eq created_isFaultless users.table (Settings.ranges_of_validate users.valid).2 "gus" 5 5
    exact congrArg (fun answer => answer.1.errors.map GraphError.message) hdelete
  have httl : users.deletionTtl 5 leaving.request ≤ 5 := by decide +kernel
  have hdrawn : (users.upsert (users.delete created 5 leaving.request).2 (later 0) ⟨7, 0⟩ "User"
      (joining "eve" "follows")).2.2 = later 2 := by
    have hlevel : (users.grower ⟨7, 0⟩).level "User" (joining "eve" "follows").create.data
        (joining "eve" "follows").create.connections ((joining "eve" "follows").target.bind Target.id) (later 0) = _ :=
      @level_joining users.schema users.paired follows "eve" (by decide) (by decide) ⟨7, 0⟩
    rw [Engine.upsert_of_level hlevel]
  have hon : (users.delete created 5 leaving.request).2.GoesOnWithout "gus" _ :=
    .upsert .refl users (later 0) ⟨7, 0⟩ "User" (joining "eve" "follows") (by rw [hdrawn]; decide) (by decide)
  exact ⟨created_reached, rfl, herrors, httl, _, hon,
    Engine.deleted_stays_hidden created_reached rfl herrors httl hon rfl (by decide)⟩

end Sample

end PropertyGraph
