import PropertyGraph.Proofs.Limits
import PropertyGraph.Proofs.SettingsRules
import PropertyGraph.Proofs.SingularPath

/-!
# Operations on what represents a store

The operations are written for whatever answers requests. Say in which sense something represents a store, and that it
answers a request within the limits of a store as the store that it represents, of which it represents what is left
(`Represents`). Then every operation of the engine comes to the same on it as on the store, and it represents the store
that the operation leaves (`Represents.perform`): the operations ask for nothing beyond the limits, whatever their
arguments are and whatever was answered before.

A store that is watched keeps a record of its requests (`Watched`). To be watched changes nothing, and what holds of
each request that is within the limits holds of all that an operation asks.
-/

namespace PropertyGraph

variable {σ : Type} [Storage σ] {R : σ → Store → Prop} {indexName : String} {w : σ} {s : Store}

/-- Whether two outcomes are of one value, with the first state representing the second. -/
structure Alike {α : Type} (R : σ → Store → Prop) (x : α × σ) (y : α × Store) : Prop where
  value : x.1 = y.1
  state : R x.2 y.2

omit [Storage σ] in
theorem Alike.exists {α : Type} {x : α × σ} {y : α × Store} (h : Alike R x y) :
    ∃ a w s, x = (a, w) ∧ y = (a, s) ∧ R w s :=
  ⟨x.1, x.2, y.2, rfl, Prod.ext h.value.symm rfl, h.state⟩

/-- Whether a sense of representing a store is kept by every request within the limits, which is answered as the store
answers it. -/
structure Represents (indexName : String) (R : σ → Store → Prop) : Prop where
  ask {w : σ} {s : Store} (h : R w s) (r : StoreRequest) (hr : r.IsWithin indexName) :
    Alike R (Storage.ask w r) (Storage.ask s r)

namespace Represents

variable (hR : Represents indexName R)
include hR

theorem put (table : String) {record : Record} (hr : record.IsStorable) (condition : PutCondition) (h : R w s) :
    Alike R (Storage.put w table record.toAttributes condition) (Storage.put s table record.toAttributes condition) :=
  hR.ask h (.put table record.toAttributes condition) ⟨record, hr, rfl⟩

theorem batchWrite {table : String} {batch : List Fields}
    (hb : (StoreRequest.batchWrite table batch).IsWithin indexName) (h : R w s) :
    Alike R (Storage.batchWrite w table batch) (Storage.batchWrite s table batch) := hR.ask h _ hb

theorem batchGet (table : String) {keys : List Key} (hk : 1 ≤ keys.length ∧ keys.length ≤ Store.mostGets) (h : R w s) :
    Alike R (Storage.batchGet w table keys) (Storage.batchGet s table keys) :=
  hR.ask h (.batchGet table keys) hk

theorem query (table : String) {q : Query} (hq : q.IsWithin indexName) (h : R w s) :
    Alike R (Storage.query w table q) (Storage.query s table q) :=
  hR.ask h (.query table q) hq

theorem updateTtl (table : String) (key : Key) (ttl : Int64) (h : R w s) :
    Alike R (Storage.updateTtl w table key ttl) (Storage.updateTtl s table key ttl) :=
  hR.ask h (.updateTtl table key ttl) trivial

/-! ## Writing and looking up -/

theorem putNew (table : String) {records : List Record} (hr : ∀ record ∈ records, record.IsStorable) (h : R w s) :
    Alike R (putNew w table records) (putNew s table records) := by
  induction records generalizing w s with
  | nil => exact ⟨rfl, h⟩
  | cons record rest ih =>
    obtain ⟨answer, w', s', hw, hs, h⟩ := (hR.put table (hr record (List.mem_cons_self ..)) .ifNotExists h).exists
    have hrest := ih (fun other ho => hr other (List.mem_cons_of_mem _ ho)) h
    rw [PropertyGraph.putNew, PropertyGraph.putNew, hw, hs]
    cases answer with
    | ok _ => exact hrest
    | error e => exact ⟨congrArg (e :: ·) hrest.value, hrest.state⟩

/-- However often a chunk is tried again, what is asked is within the limits where the chunk is. -/
theorem writeChunk {table : String} (retries : Nat) {pending : List Fields}
    (hp : (StoreRequest.batchWrite table pending).IsWithin indexName) (h : R w s) :
    Alike R (writeChunk w table retries pending) (writeChunk s table retries pending) := by
  induction retries generalizing pending w s with
  | zero =>
    obtain ⟨answer, w', s', hw, hs, h⟩ := (hR.batchWrite hp h).exists
    rw [PropertyGraph.writeChunk, PropertyGraph.writeChunk, hw, hs]
    cases answer with
    | ok undone => cases undone <;> exact ⟨rfl, h⟩
    | error e => cases hretry : e.isRetryable <;> simp only [hretry] <;> exact ⟨rfl, h⟩
  | succ left ih =>
    obtain ⟨answer, w', s', hw, hs, h⟩ := (hR.batchWrite hp h).exists
    rw [PropertyGraph.writeChunk, PropertyGraph.writeChunk, hw, hs]
    cases answer with
    | ok undone =>
      cases undone with
      | nil => exact ⟨rfl, h⟩
      | cons first rest => exact ih (hp.undone (congrArg Prod.fst hs) (List.cons_ne_nil first rest)) h
    | error e =>
      cases hretry : e.isRetryable with
      | true => simpa [hretry] using ih hp h
      | false => simpa only [hretry] using ⟨rfl, h⟩

theorem writeChunks {table : String} (retries : Nat) {pieces : List (List Fields)}
    (hp : ∀ chunk ∈ pieces, (StoreRequest.batchWrite table chunk).IsWithin indexName) (h : R w s) :
    Alike R (writeChunks w table retries pieces) (writeChunks s table retries pieces) := by
  induction pieces generalizing w s with
  | nil => exact ⟨rfl, h⟩
  | cons chunk rest ih =>
    have hfirst := hR.writeChunk retries (hp chunk (List.mem_cons_self ..)) h
    have hrest := ih (fun other ho => hp other (List.mem_cons_of_mem _ ho)) hfirst.state
    simp only [PropertyGraph.writeChunks]
    exact ⟨by rw [hfirst.value, hrest.value], hrest.state⟩

theorem hydrateChunks (table : String) (now : Int64) {pieces : List (List String)}
    (hp : ∀ chunk ∈ pieces, chunk ≠ [] ∧ chunk.length ≤ Store.mostGets) (h : R w s) :
    Alike R (hydrateChunks w table now pieces) (hydrateChunks s table now pieces) := by
  induction pieces generalizing w s with
  | nil => exact ⟨rfl, h⟩
  | cons chunk rest ih =>
    obtain ⟨hne, hsize⟩ := hp chunk (List.mem_cons_self ..)
    have hkeys : 1 ≤ (chunk.map Key.node).length ∧ (chunk.map Key.node).length ≤ Store.mostGets := by
      rw [List.length_map]
      exact ⟨List.length_pos_iff.mpr hne, hsize⟩
    have hfirst := hR.batchGet table hkeys h
    have hrest := ih (fun other ho => hp other (List.mem_cons_of_mem _ ho)) hfirst.state
    simp only [PropertyGraph.hydrateChunks]
    exact ⟨by rw [hfirst.value, hrest.value], hrest.state⟩

/-! ## Reading and marking pages -/

section reading

variable (r : EdgeReader) {q : Query}

theorem fetch (hq : q.IsWithin indexName) (h : R w s) : Alike R (r.fetch w q) (r.fetch s q) :=
  have hpage := hR.query r.table hq h
  ⟨congrArg r.fetched hpage.value, hpage.state⟩

theorem edgesFrom (hq : q.IsWithin indexName) (h : R w s) : Alike R (r.edgesFrom w q) (r.edgesFrom s q) := by
  induction w, q using @EdgeReader.edgesFrom.induct σ _ r generalizing s with
  | case1 w q e he =>
    have hfetch := hR.fetch r hq h
    rw [EdgeReader.edgesFrom_error he, EdgeReader.edgesFrom_error (hfetch.value.symm.trans he)]
    exact ⟨rfl, hfetch.state⟩
  | case2 w q f hf hlast =>
    have hfetch := hR.fetch r hq h
    rw [EdgeReader.edgesFrom_last hf hlast, EdgeReader.edgesFrom_last (hfetch.value.symm.trans hf) hlast]
    exact ⟨rfl, hfetch.state⟩
  | case3 w q f hf next hnext _ _ _ ih =>
    have hfetch := hR.fetch r hq h
    have hrest := ih (hq.after next) hfetch.state
    rw [EdgeReader.edgesFrom_next hf hnext, EdgeReader.edgesFrom_next (hfetch.value.symm.trans hf) hnext]
    exact ⟨congrArg (Except.map (f.edges ++ ·)) hrest.value, hrest.state⟩

theorem firstNeighbors (side : EdgeSide) (hq : q.IsWithin indexName) (h : R w s) :
    Alike R (r.firstNeighbors w side q) (r.firstNeighbors s side q) := by
  induction w, q using @EdgeReader.firstNeighbors.induct σ _ r side generalizing s with
  | case1 w q e he =>
    have hfetch := hR.fetch r hq h
    rw [EdgeReader.firstNeighbors_error he, EdgeReader.firstNeighbors_error (hfetch.value.symm.trans he)]
    exact ⟨rfl, hfetch.state⟩
  | case2 w q f hf hlast =>
    have hfetch := hR.fetch r hq h
    rw [EdgeReader.firstNeighbors_stop hf (Or.inl hlast),
      EdgeReader.firstNeighbors_stop (hfetch.value.symm.trans hf) (Or.inl hlast)]
    exact ⟨rfl, hfetch.state⟩
  | case3 w q f hf next hnext hempty ih =>
    have hfetch := hR.fetch r hq h
    rw [EdgeReader.firstNeighbors_next hf hnext hempty,
      EdgeReader.firstNeighbors_next (hfetch.value.symm.trans hf) hnext hempty]
    exact ih (hq.after next) hfetch.state
  | case4 w q f hf next hnext hsome =>
    have hfetch := hR.fetch r hq h
    rw [EdgeReader.firstNeighbors_stop hf (Or.inr hsome),
      EdgeReader.firstNeighbors_stop (hfetch.value.symm.trans hf) (Or.inr hsome)]
    exact ⟨rfl, hfetch.state⟩

theorem page (hr : r.indexName = indexName) (root : String) (side : EdgeSide) {limit : Nat} (hl : 0 < limit)
    (cursor : Option String) (h : R w s) :
    Alike R (r.page w root side limit cursor) (r.page s root side limit cursor) := by
  rw [EdgeReader.page, EdgeReader.page]
  cases Cursor.decodeOptional cursor with
  | error e => exact ⟨rfl, h⟩
  | ok start =>
    have hfetch := hR.fetch r (hr ▸ r.isWithin_query root side hl start) h
    exact ⟨congrArg (Except.map _) hfetch.value, hfetch.state⟩

theorem all (hr : r.indexName = indexName) (root : String) (side : EdgeSide) {limit : Nat} (hl : 0 < limit)
    (cursor : Option String) (h : R w s) :
    Alike R (r.all w root side limit cursor) (r.all s root side limit cursor) := by
  rw [EdgeReader.all, EdgeReader.all]
  cases Cursor.decodeOptional cursor with
  | error e => exact ⟨rfl, h⟩
  | ok start =>
    have hedges := hR.edgesFrom r (hr ▸ r.isWithin_query root side hl start) h
    exact ⟨congrArg (Except.map _) hedges.value, hedges.state⟩

end reading

theorem markRows (table : String) (ttl : Int64) (rows : List Row) (h : R w s) :
    Alike R (markRows w table ttl rows) (markRows s table ttl rows) := by
  induction rows generalizing w s with
  | nil => exact ⟨rfl, h⟩
  | cons row rest ih =>
    have hfirst := hR.updateTtl table row.key ttl h
    have hrest := ih hfirst.state
    simp only [PropertyGraph.markRows]
    exact ⟨by rw [hfirst.value, hrest.value], hrest.state⟩

theorem scan (table : String) (ttl : Int64) {q : Query} (hq : q.IsWithin indexName) (h : R w s) :
    Alike R (scan w table ttl q) (scan s table ttl q) := by
  induction w, q using @scan.induct σ _ table ttl generalizing s with
  | case1 w q e he =>
    have hpage := hR.query table hq h
    rw [scan_error he, scan_error (hpage.value.symm.trans he)]
    exact ⟨rfl, hpage.state⟩
  | case2 w q page hf hlast =>
    have hpage := hR.query table hq h
    rw [scan_last hf hlast, scan_last (hpage.value.symm.trans hf) hlast]
    exact hR.markRows table ttl page.rows hpage.state
  | case3 w q page hf last hnext ih =>
    have hpage := hR.query table hq h
    have hmarked := hR.markRows table ttl page.rows hpage.state
    have hrest := ih (hq.after last) hmarked.state
    rw [scan_next hf hnext, scan_next (hpage.value.symm.trans hf) hnext]
    exact ⟨congrArg₂ Deleted.append hmarked.value hrest.value, hrest.state⟩

theorem softDeleteMany (table : String) {pageLimit : Nat} (hl : 0 < pageLimit) (ttl now : Int64) (ids : List String)
    (h : R w s) :
    Alike R (softDeleteMany w table pageLimit ttl now ids) (softDeleteMany s table pageLimit ttl now ids) := by
  induction ids generalizing w s with
  | nil => exact ⟨rfl, h⟩
  | cons id rest ih =>
    have hfirst := hR.scan table ttl (isWithin_deletionQuery id hl ttl now) h
    have hrest := ih hfirst.state
    simp only [PropertyGraph.softDeleteMany, softDelete]
    exact ⟨by rw [hfirst.value, hrest.value], hrest.state⟩

end Represents

/-! ## Operations of the engine -/

/-- An operation of the engine with its arguments. -/
inductive Engine.Call where
  | create (ids : IdSource) (now : Instant) (typeName : String) (r : CreateRequest)
  | upsert (ids : IdSource) (now : Instant) (typeName : String) (r : UpsertRequest)
  | get (now : Int64) (id : String)
  | connection (now : Int64) (r : ConnectionRequest)
  | connectionPlural (now : Int64) (r : ConnectionRequest)
  | delete (now : Int64) (r : DeleteRequest)
  | deleteMany (now : Int64) (r : DeleteRequest)

namespace Engine.Call

/-- What an operation comes to: its response, and the ids that are left where it draws some. -/
@[reducible] def Outcome : Call → Type
  | create .. => Response (Option Fields) × IdSource
  | upsert .. => Response UpsertResult × IdSource
  | get .. => Response (Option Fields)
  | connection .. => Response (Option Fields)
  | connectionPlural .. => Response ConnectionPage
  | delete .. => Response DeleteCount
  | deleteMany .. => Response DeleteCount

/-- What an operation comes to, and what answered its requests, after it. -/
def perform (e : Engine) (w : σ) : (c : Call) → c.Outcome × σ
  | create ids now typeName r =>
    let (response, w, ids) := e.create w ids now typeName r
    ((response, ids), w)
  | upsert ids now typeName r =>
    let (response, w, ids) := e.upsert w ids now typeName r
    ((response, ids), w)
  | get now id => e.get w now id
  | connection now r => e.connection w now r
  | connectionPlural now r => e.connectionPlural w now r
  | delete now r => e.delete w now r
  | deleteMany now r => e.deleteMany w now r

end Engine.Call

namespace Represents

variable (e : Engine)

section anywhere

variable (hR : Represents indexName R)
include hR

theorem look (now : Int64) (ids : List String) (h : R w s) : Alike R (e.look w now ids) (e.look s now ids) := by
  obtain ⟨⟨hpos, hmost⟩, -⟩ := Settings.ranges_of_validate e.valid
  exact hR.hydrateChunks e.table now (fun chunk hchunk =>
    ⟨ne_nil_of_mem_chunksOf hchunk, Nat.le_trans (length_le_of_mem_chunks hpos hchunk) hmost⟩) h

theorem create (ids : IdSource) (now : Instant) (typeName : String) (r : CreateRequest) (h : R w s) :
    Alike R ((Engine.Call.create ids now typeName r).perform e w)
      ((Engine.Call.create ids now typeName r).perform e s) := by
  simp only [Engine.Call.perform, Engine.create]
  cases hexpand : (e.grower now).expand typeName r.data r.connections none ids with
  | mk answer ids' =>
    cases answer with
    | error fault => exact ⟨rfl, h⟩
    | ok expansion =>
      dsimp only
      cases expansion.roots with
      | nil => exact ⟨rfl, h⟩
      | cons root others =>
        have hput := hR.putNew e.table (Grower.isStorable_of_expand hexpand) h
        exact ⟨by simp only [hput.value], hput.state⟩

/-- The rows of one batch are those of a chunk of the records, which is not empty and not too large. -/
theorem writeRecords {records : List Record} (hr : ∀ record ∈ records, record.IsStorable)
    (h : R w s) : Alike R
      (writeRecords w e.table e.settings.write.batchSize e.settings.write.retryPolicy.retries records)
      (writeRecords s e.table e.settings.write.batchSize e.settings.write.retryPolicy.retries records) := by
  obtain ⟨hpos, hmost⟩ := Settings.batchSize_of_validate e.valid
  refine hR.writeChunks _ (fun batch hbatch => ?_) h
  obtain ⟨chunk, hchunk, rfl⟩ := List.mem_map.mp hbatch
  refine ⟨?_, chunk, fun record hrecord => hr record ?_, rfl⟩
  · rw [List.length_map]
    exact ⟨List.length_pos_iff.mpr (ne_nil_of_mem_chunksOf hchunk),
      Nat.le_trans (length_le_of_mem_chunks hpos hchunk) hmost⟩
  · rw [← chunks_flatten e.settings.write.batchSize records]
    exact List.mem_flatten_of_mem hchunk hrecord

theorem upsert (ids : IdSource) (now : Instant) (typeName : String) (r : UpsertRequest) (h : R w s) :
    Alike R ((Engine.Call.upsert ids now typeName r).perform e w)
      ((Engine.Call.upsert ids now typeName r).perform e s) := by
  simp only [Engine.Call.perform, Engine.upsert]
  cases hexpand : (e.grower now).expand typeName r.create.data r.create.connections (r.target.bind Target.id) ids with
  | mk answer ids' =>
    cases answer with
    | error fault => exact ⟨rfl, h⟩
    | ok expansion =>
      dsimp only
      cases expansion.roots with
      | nil => exact ⟨rfl, h⟩
      | cons root others =>
        have hwrite := hR.writeRecords e (Grower.isStorable_of_expand hexpand) h
        exact ⟨by simp only [hwrite.value], hwrite.state⟩

theorem delete (now : Int64) (r : DeleteRequest) (h : R w s) : Alike R (e.delete w now r) (e.delete s now r) := by
  have hlimit := (Settings.ranges_of_validate e.valid).2
  rw [Engine.delete, Engine.delete]
  cases r.target.namedId? with
  | none => exact ⟨rfl, h⟩
  | some id =>
    have hscan := hR.scan e.table (e.deletionTtl now r) (isWithin_deletionQuery id hlimit (e.deletionTtl now r) now) h
    exact ⟨by simp only [softDelete, hscan.value], hscan.state⟩

theorem deleteMany (now : Int64) (r : DeleteRequest) (h : R w s) :
    Alike R (e.deleteMany w now r) (e.deleteMany s now r) := by
  have hlimit := (Settings.ranges_of_validate e.valid).2
  have hmany := hR.softDeleteMany e.table hlimit (e.deletionTtl now r) now r.target.ids h
  rw [Engine.deleteMany, Engine.deleteMany]
  split
  · exact ⟨rfl, h⟩
  · exact ⟨by simp only [hmany.value], hmany.state⟩

end anywhere

section reading

variable (hR : Represents e.settings.store.edgeIndexName R)
include hR

theorem edgesAlong (now : Int64) (id : String) (sides : List EdgeSide) (h : R w s) :
    (e.edgesAlong w now id sides).1 = (e.edgesAlong s now id sides).1 ∧
      Alike R (e.edgesAlong w now id sides).2 (e.edgesAlong s now id sides).2 := by
  have hlimit := (Settings.ranges_of_validate e.valid).2
  induction sides generalizing w s with
  | nil => exact ⟨rfl, rfl, h⟩
  | cons side rest ih =>
    obtain ⟨answer, w', s', hw, hs, h⟩ := (hR.all (e.reader now) rfl id side hlimit none h).exists
    obtain ⟨hrecords, herrors, h⟩ := ih h
    rw [Engine.edgesAlong, Engine.edgesAlong, hw, hs]
    cases answer with
    | ok page => exact ⟨congrArg (page.edges.map Record.edge ++ ·) hrecords, herrors, h⟩
    | error fault => exact ⟨hrecords, congrArg (fault :: ·) herrors, h⟩

theorem get (now : Int64) (id : String) (h : R w s) : Alike R (e.get w now id) (e.get s now id) := by
  obtain ⟨hydrated, w', s', hw, hs, h⟩ := (hR.look e now [id] h).exists
  rw [Engine.get, Engine.get, hw, hs]
  dsimp only
  cases hydrated.nodes with
  | nil => exact ⟨rfl, h⟩
  | cons node others =>
    obtain ⟨hrecords, herrors, h⟩ := hR.edgesAlong e now id (e.schema.sidesOf node.typeName) h
    exact ⟨by simp only [hrecords, herrors], h⟩

/-- Whatever limit is given, a page reads at least one row. -/
theorem connection (now : Int64) (r : ConnectionRequest) (h : R w s) :
    Alike R (e.connection w now r) (e.connection s now r) := by
  have hlimit := limitOr_pos (Settings.singularLimit_of_validate e.valid) r.arguments.limit
  rw [Engine.connection, Engine.connection]
  cases e.resolve r with
  | error fault => exact ⟨rfl, h⟩
  | ok found =>
    obtain ⟨side, root⟩ := found
    have hquery := (e.reader now).isWithin_query root side hlimit none
    obtain ⟨answer, w', s', hw, hs, h⟩ := (hR.firstNeighbors (e.reader now) side hquery h).exists
    dsimp only
    rw [hw, hs]
    cases answer with
    | error fault => exact ⟨rfl, h⟩
    | ok neighbors =>
      have hlook := hR.look e now neighbors h
      exact ⟨by simp only [hlook.value], hlook.state⟩

theorem neighbors (now : Int64) (r : ConnectionRequest) (side : EdgeSide) (root : String) {limit : Nat}
    (hl : 0 < limit) (filter : Option Filter) (h : R w s) :
    Alike R (e.neighbors w now r side root limit filter) (e.neighbors s now r side root limit filter) := by
  cases filter with
  | none => exact hR.page (e.reader now) rfl root side hl r.arguments.cursor h
  | some f => exact hR.all (e.reader now) rfl root side (Settings.ranges_of_validate e.valid).2 r.arguments.cursor h

theorem connectionPlural (now : Int64) (r : ConnectionRequest) (h : R w s) :
    Alike R (e.connectionPlural w now r) (e.connectionPlural s now r) := by
  have hlimit := limitOr_pos (Settings.defaultLimit_of_validate e.valid) r.arguments.limit
  rw [Engine.connectionPlural, Engine.connectionPlural]
  cases e.resolve r with
  | error fault => exact ⟨rfl, h⟩
  | ok found =>
    obtain ⟨side, root⟩ := found
    cases Engine.readFilter r with
    | error fault => exact ⟨rfl, h⟩
    | ok filter =>
      obtain ⟨answer, w', s', hw, hs, h⟩ := (hR.neighbors e now r side root hlimit filter h).exists
      dsimp only
      rw [hw, hs]
      cases answer with
      | error fault => exact ⟨rfl, h⟩
      | ok page =>
        have hlook := hR.look e now page.neighbors h
        exact ⟨by simp only [hlook.value], hlook.state⟩

/-- Every operation comes to the same on what represents a store as on the store, and leaves it representing the store
that it leaves. -/
theorem perform (c : Engine.Call) (h : R w s) : Alike R (c.perform e w) (c.perform e s) := by
  cases c with
  | create ids now typeName r => exact hR.create e ids now typeName r h
  | upsert ids now typeName r => exact hR.upsert e ids now typeName r h
  | get now id => exact hR.get e now id h
  | connection now r => exact hR.connection e now r h
  | connectionPlural now r => exact hR.connectionPlural e now r h
  | delete now r => exact hR.delete e now r h
  | deleteMany now r => exact hR.deleteMany e now r h

end reading

end Represents

/-! ## Being watched -/

/-- A store and what was asked of it, each request with the store that it met. -/
structure Watched where
  store : Store
  asked : List (StoreRequest × Store)

namespace Watched

/-- A store of which nothing has been asked. -/
def ofStore (s : Store) : Watched := ⟨s, []⟩

instance : Storage Watched where
  ask w r := ((r.ask w.store).1, ⟨(r.ask w.store).2, w.asked ++ [(r, w.store)]⟩)
  remaining w := w.store.remaining
  remaining_updateTtl w := Storage.remaining_updateTtl w.store
  remaining_lt h hl := Storage.remaining_lt h hl

end Watched

/-- Whether requests, each with the store that it meets, lead from a store to another when they are asked one after the
other. -/
inductive StoreRequest.Lead (s : Store) : List (StoreRequest × Store) → Store → Prop
  | done : Lead s [] s
  | ask {asked : List (StoreRequest × Store)} {s' : Store} (before : Lead s asked s') (r : StoreRequest) :
      Lead s (asked ++ [(r, s')]) (r.ask s').2

/-- Whether a watched store is one to which what was asked leads from another, and all that was asked is within the
limits. -/
structure Watched.Shows (indexName : String) (s : Store) (w : Watched) (s' : Store) : Prop where
  store : w.store = s'
  lead : StoreRequest.Lead s w.asked s'
  within : ∀ m ∈ w.asked, m.1.IsWithin indexName

/-- What a request within the limits adds to the record is within them. -/
theorem Watched.represents_shows (indexName : String) (s : Store) : Represents indexName (Shows indexName s) := by
  constructor
  rintro w s' ⟨rfl, hlead, hwithin⟩ r hr
  refine ⟨rfl, rfl, hlead.ask r, fun m hm => ?_⟩
  rcases List.mem_append.mp hm with hold | hnew
  · exact hwithin m hold
  · obtain rfl := List.mem_singleton.mp hnew
    exact hr

end PropertyGraph
