import PropertyGraph.Engine
import PropertyGraph.Proofs.FullScan
import PropertyGraph.Proofs.Growth
import PropertyGraph.Proofs.Hydration
import PropertyGraph.Proofs.StoredRows

/-!
# Stores that can come about

A store comes about by the operations of engines, of any schemas and settings, from a store without tables; between
them faults may be set up (`Store.Reached`). No operation puts anything but records, and a deletion only sets times to
live, so every row is one that a record was written to (`Store.Reached.every_isRowOf`), and every store that comes
about is readable.
-/

namespace PropertyGraph

/-! ## Records of a payload -/

namespace Grower

variable {g : Grower} {typeName : String} {data connections : Option Json} {first : Option String} {ids ids' : IdSource}
  {expansion : Expansion}

theorem isStorable_of_expand (h : g.expand typeName data connections first ids = (.ok expansion, ids')) :
    ∀ r ∈ expansion.records, r.IsStorable := by
  obtain ⟨branches, rfl, hgrown, -⟩ := expand_eq_ok h
  exact Branch.isStorable_of_areGrown hgrown

/-- The schema knows the records of an expansion. -/
theorem isOf_of_expand (h : g.expand typeName data connections first ids = (.ok expansion, ids')) :
    ∀ r ∈ expansion.records, r.IsOf g.schema := by
  obtain ⟨branches, rfl, hgrown, -⟩ := expand_eq_ok h
  refine Branch.forall_recordsOf (fun _ _ _ => trivial) (fun side hside near far => ⟨side, hside, ?_⟩) branches hgrown
  rw [EdgeSide.link]
  cases side.principal <;> rfl

end Grower

/-! ## Operations of an engine -/

namespace Engine

section payload

variable {e : Engine} {ids ids' : IdSource} {now : Instant} {typeName : String} {branch : Branch} {rest : List Branch}

/-- To create branches is to put their records, which must be new, and to put the first node together from them. -/
theorem create_of_level {r : CreateRequest}
    (h : (e.grower now).level typeName r.data r.connections none ids = (.ok (branch :: rest), ids')) (s : Store) :
    e.create s ids now typeName r =
      (.withErrors (reduce e.schema now.seconds branch.node.id (Branch.recordsOf (branch :: rest)))
        (putNew s e.table (Branch.recordsOf (branch :: rest))).1,
          (putNew s e.table (Branch.recordsOf (branch :: rest))).2, ids') := by
  rw [create, Grower.expand, h]
  rfl

/-- A create answers with no node and leaves the store as it is, or creates branches. -/
theorem create_cases (e : Engine) (s : Store) (ids : IdSource) (now : Instant) (typeName : String) (r : CreateRequest) :
    (∃ answer ids', e.create s ids now typeName r = (answer, s, ids') ∧ answer.data = none) ∨
      ∃ branch rest ids', (e.grower now).level typeName r.data r.connections none ids =
        (.ok (branch :: rest), ids') := by
  rw [create, Grower.expand]
  cases (e.grower now).level typeName r.data r.connections none ids with
  | mk answer ids' =>
    cases answer with
    | error fault => exact Or.inl ⟨_, ids', rfl, rfl⟩
    | ok branches =>
      cases branches with
      | nil => exact Or.inl ⟨_, ids', rfl, rfl⟩
      | cons branch rest => exact Or.inr ⟨branch, rest, ids', rfl⟩

/-- To create or overwrite branches is to write their records, and to put the first node together from them. -/
theorem upsert_of_level {r : UpsertRequest}
    (h : (e.grower now).level typeName r.create.data r.create.connections (r.target.bind Target.id) ids =
      (.ok (branch :: rest), ids'))
    (s : Store) :
    e.upsert s ids now typeName r =
      let written := writeRecords s e.table e.settings.write.batchSize e.settings.write.retryPolicy.retries
        (Branch.recordsOf (branch :: rest))
      (.withErrors ⟨reduce e.schema now.seconds branch.node.id (Branch.recordsOf (branch :: rest)), written.1.undone⟩
        written.1.errors,
        written.2, ids') := by
  rw [upsert, Grower.expand, h]
  rfl

/-- An upsert answers with no node and leaves the store as it is, or creates or overwrites branches. -/
theorem upsert_cases (e : Engine) (s : Store) (ids : IdSource) (now : Instant) (typeName : String) (r : UpsertRequest) :
    (∃ answer ids', e.upsert s ids now typeName r = (answer, s, ids') ∧ answer.data.node = none) ∨
      ∃ branch rest ids', (e.grower now).level typeName r.create.data r.create.connections
        (r.target.bind Target.id) ids =
        (.ok (branch :: rest), ids') := by
  rw [upsert, Grower.expand]
  cases (e.grower now).level typeName r.create.data r.create.connections (r.target.bind Target.id) ids with
  | mk answer ids' =>
    cases answer with
    | error fault => exact Or.inl ⟨_, ids', rfl, rfl⟩
    | ok branches =>
      cases branches with
      | nil => exact Or.inl ⟨_, ids', rfl, rfl⟩
      | cons branch rest => exact Or.inr ⟨branch, rest, ids', rfl⟩

end payload

variable {p : Fields → Prop} {s : Store}

/-- To create keeps a property of rows that the records have which the engine writes. -/
theorem every_create (e : Engine) (hp : ∀ r : Record, r.IsStorable → r.IsOf e.schema → p r.toAttributes) (h : s.Every p)
    (ids : IdSource) (now : Instant) (typeName : String) (r : CreateRequest) :
    (e.create s ids now typeName r).2.1.Every p := by
  unfold create
  split
  · exact h
  next expansion ids' hexpand =>
    split
    · exact h
    · exact h.putNew e.table fun r hr => hp r (Grower.isStorable_of_expand hexpand r hr)
        (Grower.isOf_of_expand hexpand r hr)

/-- To create or overwrite keeps a property of rows that the records have which the engine writes. -/
theorem every_upsert (e : Engine) (hp : ∀ r : Record, r.IsStorable → r.IsOf e.schema → p r.toAttributes) (h : s.Every p)
    (ids : IdSource) (now : Instant) (typeName : String) (r : UpsertRequest) :
    (e.upsert s ids now typeName r).2.1.Every p := by
  unfold upsert
  split
  · exact h
  next expansion ids' hexpand =>
    split
    · exact h
    · exact h.writeRecords e.table _ _ fun r hr =>
        hp r (Grower.isStorable_of_expand hexpand r hr) (Grower.isOf_of_expand hexpand r hr)

theorem every_delete (e : Engine) (hp : Fields.IsKeptByTtl p) (h : s.Every p) (now : Int64) (r : DeleteRequest) :
    (e.delete s now r).2.Every p := by
  unfold delete
  split
  · exact h
  · exact h.scan hp e.table _ _

theorem every_deleteMany (e : Engine) (hp : Fields.IsKeptByTtl p) (h : s.Every p) (now : Int64) (r : DeleteRequest) :
    (e.deleteMany s now r).2.Every p := by
  unfold deleteMany
  split
  · exact h
  · exact h.softDeleteMany hp e.table _ _ now _

end Engine

/-! ## Stores that come about -/

/-- The stores that come about from one without tables by what engines do, of whatever schemas and settings, and by
faults that are set up in between. -/
inductive Store.Reached : Store → Prop
  | empty (indexName : String) : Reached (Store.empty indexName)
  | create {s : Store} (h : Reached s) (e : Engine) (ids : IdSource) (now : Instant) (typeName : String)
      (r : CreateRequest) : Reached (e.create s ids now typeName r).2.1
  | upsert {s : Store} (h : Reached s) (e : Engine) (ids : IdSource) (now : Instant) (typeName : String)
      (r : UpsertRequest) : Reached (e.upsert s ids now typeName r).2.1
  | delete {s : Store} (h : Reached s) (e : Engine) (now : Int64) (r : DeleteRequest) : Reached (e.delete s now r).2
  | deleteMany {s : Store} (h : Reached s) (e : Engine) (now : Int64) (r : DeleteRequest) :
      Reached (e.deleteMany s now r).2
  | throttling {s : Store} (h : Reached s) (calls : Nat) : Reached (s.throttling calls)
  | leavingUndone {s : Store} (h : Reached s) (rounds : Nat) : Reached (s.leavingUndone rounds)
  | rejecting {s : Store} (h : Reached s) (id : String) : Reached (s.rejecting id)

/-- Every row of a store that comes about is one that a record was written to. -/
theorem Store.Reached.every_isRowOf {s : Store} (h : s.Reached) : s.Every (Fields.IsRowOf fun _ => True) := by
  have hkept : Fields.IsKeptByTtl (Fields.IsRowOf fun _ => True) := Fields.isKeptByTtl_isRowOf fun _ _ _ => trivial
  induction h with
  | empty indexName => exact Store.every_empty indexName
  | create _ e ids now typeName r ih => exact e.every_create (fun r hr _ => ⟨r, hr, trivial, rfl⟩) ih ids now typeName r
  | upsert _ e ids now typeName r ih => exact e.every_upsert (fun r hr _ => ⟨r, hr, trivial, rfl⟩) ih ids now typeName r
  | delete _ e now r ih => exact e.every_delete hkept ih now r
  | deleteMany _ e now r ih => exact e.every_deleteMany hkept ih now r
  | throttling _ calls ih => exact ih
  | leavingUndone _ rounds ih => exact ih
  | rejecting _ id ih => exact ih

theorem Store.Reached.isReadable {s : Store} (h : s.Reached) : s.IsReadable := h.every_isRowOf.isReadable

/-! ## A store after a create -/

namespace Sample

/-- Users who follow each other. -/
def users : Engine := ⟨Schema.ofSides [follows, followers], { store := { tableName := "graph" } }, rfl, rfl⟩

/-- Three ids to draw, not in their order, of which some are drawn already. -/
def fresh (drawn : Nat) : IdSource := ⟨fun k => ["eve", "hal", "gus"].getD k "", drawn⟩

/-- Two users, of whom one has a name. -/
def followed : Json := .object [("data", .array [.object [("name", .string "Hal")], .object []])]

/-- A user who follows two others. -/
def newcomerData : Json := .object [("name", .string "Eve"), ("follows", followed)]

/-- Asks for a user who follows two others. -/
def newcomer : CreateRequest where
  data := some newcomerData

/-- The tree to which that request grows. -/
def newcomers (stamp : Stamp) : Branch :=
  .mk ⟨"eve", "User", stamp, none, [("name", .string "Eve")]⟩
    [.mk follows [.mk ⟨"hal", "User", stamp, none, [("name", .string "Hal")]⟩ [],
      .mk ⟨"gus", "User", stamp, none, []⟩ []]]

/-- That request grows to that tree, and draws all three ids. -/
theorem expand_newcomer (now : Instant) :
    (users.grower now).expand "User" newcomer.data newcomer.connections none (fresh 0) =
      (.ok (.ofBranches [newcomers (users.grower now).stamp]), fresh 3) := by
  have hdraw (k : Nat) : (fresh k).drawUnless none = ((fresh k).sequence k, fresh (k + 1)) := rfl
  have hnone (ids : IdSource) : (users.grower now).content "User" [] ids = (.ok ⟨[], []⟩, ids) := by rw [Grower.content]
  have hname (text : String) (ids : IdSource) :
      (users.grower now).content "User" [("name", .string text)] ids = (.ok ⟨[("name", .string text)], []⟩, ids) :=
    Grower.content_field (by decide) rfl rfl (hnone ids)
  have hend (ids : IdSource) : (users.grower now).branches "User" [] none ids = (.ok [], ids) := by rw [Grower.branches]
  have hgus : (users.grower now).branches "User" [Dict.ofList []] none (fresh 2) = _ :=
    Grower.branches_cons (hdraw 2) (hnone _) (hend _)
  have hhal : (users.grower now).branches "User" [Dict.ofList [("name", .string "Hal")], Dict.ofList []] none
      (fresh 1) = _ :=
    Grower.branches_cons (hdraw 1) (hname "Hal" _) hgus
  have hbelow : (users.grower now).level follows.target (followed.get? "data") (followed.get? "connections") none
      (fresh 1) = _ :=
    (Grower.level_of_readData rfl rfl none _).trans hhal
  have hcontent : (users.grower now).content "User"
    (Dict.ofList [("name", .string "Eve"), ("follows", followed)]).entries (fresh 1) =
      _ := Grower.content_twig (by decide) rfl rfl hbelow (hname "Eve" _)
  rw [Grower.expand, Grower.level_of_readData rfl rfl, Grower.branches_cons (hdraw 0) hcontent (hend _)]
  rfl

/-! ## A store after an upsert -/

/-- The engine of a schema, in the table of the users. -/
def graphOf (schema : Schema) (paired : schema.validate = .ok ()) : Engine :=
  ⟨schema, { store := { tableName := "graph" } }, paired, rfl⟩

/-- Two more ids to draw, of which some are drawn already. -/
def later (drawn : Nat) : IdSource := ⟨fun k => ["abe", "ivy"].getD k "", drawn⟩

/-- Two nodes without fields. -/
def nameless : List (String × Json) := [("data", .array [.object [], .object []])]

/-- Asks for a node of an id with two others under a field. -/
def joining (id field : String) : UpsertRequest where
  target := some (.ofId id)
  create := { data := some (.object [(field, .object nameless)]) }

/-- The tree to which that request grows. -/
def joined (stamp : Stamp) (id : String) (side : EdgeSide) : Branch :=
  .mk ⟨id, side.owner.typeName, stamp, none, []⟩
    [.mk side [.mk ⟨"abe", side.target, stamp, none, []⟩ [], .mk ⟨"ivy", side.target, stamp, none, []⟩ []]]

section joining

variable {schema : Schema} {paired : schema.validate = .ok ()} {side : EdgeSide} (id : String)
  (hfound : schema.side? side.owner.typeName side.owner.field = some side)
  (hshape : Attribute.isReserved side.owner.field = false ∧ side.cardinality = .many)

include hfound hshape

/-- That request grows to that tree, and draws both ids. -/
theorem level_joining (now : Instant) :
    ((graphOf schema paired).grower now).level side.owner.typeName (joining id side.owner.field).create.data
      (joining id side.owner.field).create.connections (some id) (later 0) =
      (.ok [joined ((graphOf schema paired).grower now).stamp id side], later 2) := by
  have hdraw (k : Nat) : (later k).drawUnless none = ((later k).sequence k, later (k + 1)) := rfl
  have hnone (typeName : String) (ids : IdSource) :
      ((graphOf schema paired).grower now).content typeName [] ids = (.ok ⟨[], []⟩, ids) := by rw [Grower.content]
  have hend (typeName : String) (ids : IdSource) :
      ((graphOf schema paired).grower now).branches typeName [] none ids = (.ok [], ids) := by rw [Grower.branches]
  have hivy : ((graphOf schema paired).grower now).branches side.target [Dict.ofList []] none (later 1) = _ :=
    Grower.branches_cons (hdraw 1) (hnone _ _) (hend _ _)
  have habe : ((graphOf schema paired).grower now).branches side.target [Dict.ofList [], Dict.ofList []] none
      (later 0) = _ :=
    Grower.branches_cons (hdraw 0) (hnone _ _) hivy
  have hbelow : ((graphOf schema paired).grower now).level side.target ((Json.object nameless).get? "data")
      ((Json.object nameless).get? "connections") none (later 0) = _ :=
        (Grower.level_of_readData rfl rfl none _).trans habe
  have hcontent : ((graphOf schema paired).grower now).content side.owner.typeName
      (Dict.ofList [(side.owner.field, Json.object nameless)]).entries (later 0) = _ :=
    Grower.content_twig hshape.1 hfound hshape.2 hbelow (hnone _ _)
  rw [Grower.level_of_readData rfl rfl, Grower.branches_cons rfl hcontent (hend _ _)]
  rfl

/-- The expansion of that request is that of the tree. -/
theorem expand_joining (now : Instant) :
    ((graphOf schema paired).grower now).expand side.owner.typeName (joining id side.owner.field).create.data
      (joining id side.owner.field).create.connections (some id) (later 0) =
      (.ok (.ofBranches [joined ((graphOf schema paired).grower now).stamp id side]), later 2) := by
  rw [Grower.expand, level_joining id hfound hshape now]

/-- The rows of that tree are written in one chunk. -/
theorem upsert_joining {σ : Type} [Storage σ] (s : σ) (now : Instant) :
    ((graphOf schema paired).upsert s (later 0) now side.owner.typeName (joining id side.owner.field)).2.1 =
      (writeChunk s "graph" (graphOf schema paired).settings.write.retryPolicy.retries
        ((Branch.recordsOf [joined ((graphOf schema paired).grower now).stamp id side]).map
          Record.toAttributes)).2 := by
  have hfirst : (joining id side.owner.field).target.bind Target.id = some id := rfl
  have hchunk : chunks (graphOf schema paired).settings.write.batchSize
      (Branch.recordsOf [joined ((graphOf schema paired).grower now).stamp id side]) =
      [Branch.recordsOf [joined ((graphOf schema paired).grower now).stamp id side]] :=
    chunks_of_le (List.cons_ne_nil _ _) (Nat.le_of_ble_eq_true rfl)
  rw [Engine.upsert, hfirst, expand_joining id hfound hshape now]
  dsimp only [Expansion.ofBranches, List.map_cons]
  rw [writeRecords, hchunk]
  rfl

end joining

/-- The store in which two users follow one whose id is empty. -/
def unnamedFollowed : Store :=
  (users.upsert (Store.empty "edge-dataType") (later 0) ⟨0, 0⟩ "User" (joining "" "followers")).2.1

/-- What was written for the three. -/
theorem unnamedFollowed_eq : unnamedFollowed =
    (writeChunk (Store.empty "edge-dataType") users.table users.settings.write.retryPolicy.retries
      ((Branch.recordsOf [joined (users.grower ⟨0, 0⟩).stamp "" followers]).map Record.toAttributes)).2 :=
  @upsert_joining users.schema users.paired followers "" (by decide) (by decide) Store _ (.empty "edge-dataType") ⟨0, 0⟩

theorem unnamedFollowed_reached : unnamedFollowed.Reached :=
  .upsert (.empty "edge-dataType") users (later 0) ⟨0, 0⟩ "User" (joining "" "followers")

end Sample

end PropertyGraph
