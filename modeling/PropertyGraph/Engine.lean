import PropertyGraph.Batch.Hydrate
import PropertyGraph.Batch.Write
import PropertyGraph.Deletion
import PropertyGraph.Filter.Reader
import PropertyGraph.Payload.Expand
import PropertyGraph.Request
import PropertyGraph.Response
import PropertyGraph.Settings.Basic
import PropertyGraph.Traversal

/-!
# The engine

The operations on a graph in a store. To create, a payload is expanded to records, they are written, and the first node
is put together from them. To follow edges, a page of them is read and the nodes at their other ends are looked up, put
in the order of the edges, and filtered where a filter is given. To delete, rows are given a time to live. An engine
has a schema whose sides are paired and settings that are valid; it holds no state of its own, and every operation
takes the store and gives it back.
-/

namespace PropertyGraph

/-- A paired schema and valid settings. -/
structure Engine where
  schema : Schema
  settings : Settings
  /-- Every side of the schema has its counterpart. -/
  paired : schema.validate = .ok ()
  /-- The settings break no rule. -/
  valid : settings.validate = .ok ()

section requests

variable {σ : Type} [Storage σ]

/-- Puts rows that must be new, one after the other; one that fails does not keep the others from being put. -/
def putNew (s : σ) (table : String) : List Record → List GraphError × σ
  | [] => ([], s)
  | record :: rest =>
    let (answer, s) := Storage.put s table record.toAttributes .ifNotExists
    let (errors, s) := putNew s table rest
    match answer with
    | .ok () => (errors, s)
    | .error e => (e :: errors, s)

end requests

/-- A limit that is given and not zero, else the usual one. -/
def limitOr (usual : Nat) (given : Option Nat) : Nat := (given.filter (0 < ·)).getD usual

namespace Engine

/-- The engine of a schema and settings, where both are valid; the schema is looked at first. -/
def ofParts (schema : Schema) (settings : Settings) : Except GraphError Engine :=
  match paired : schema.validate with
  | .error e => .error e
  | .ok () =>
    match valid : settings.validate with
    | .error e => .error e
    | .ok () => .ok ⟨schema, settings, paired, valid⟩

/-- The table that holds the graph. -/
def table (e : Engine) : String := e.settings.store.tableName

/-- What grows payloads at an instant. -/
def grower (e : Engine) (now : Instant) : Grower := ⟨e.schema, .ofInstant now e.settings.write.createdBy⟩

/-- What reads edges as of a second. -/
def reader (e : Engine) (now : Int64) : EdgeReader := ⟨e.table, e.settings.store.edgeIndexName, now⟩

variable {σ : Type} [Storage σ]

/-- Looks up nodes as of a second. -/
def look (e : Engine) (s : σ) (now : Int64) (ids : List String) : Hydrated × σ :=
  hydrate s e.table e.settings.query.getBatchSize now ids

/-- Creates the nodes of a payload. Every row must be new; the answer is the first node, with a message for each row
that is not. -/
def create (e : Engine) (s : σ) (ids : IdSource) (now : Instant) (typeName : String) (r : CreateRequest) :
    Response (Option Fields) × σ × IdSource :=
  match (e.grower now).expand typeName r.data r.connections none ids with
  | (.error fault, ids) => (.failed none fault, s, ids)
  | (.ok expansion, ids) =>
    match expansion.roots with
    | [] => (.ok none, s, ids)
    | root :: _ =>
      let (errors, s) := putNew s e.table expansion.records
      (.withErrors (reduce e.schema now.seconds root expansion.records) errors, s, ids)

/-- Creates or overwrites the nodes of a payload. The first node takes the id of the target, where it has one; the
answer is that node, with the rows that the store did not take. -/
def upsert (e : Engine) (s : σ) (ids : IdSource) (now : Instant) (typeName : String) (r : UpsertRequest) :
    Response UpsertResult × σ × IdSource :=
  match (e.grower now).expand typeName r.create.data r.create.connections (r.target.bind Target.id) ids with
  | (.error fault, ids) => (.failed {} fault, s, ids)
  | (.ok expansion, ids) =>
    match expansion.roots with
    | [] => (.ok {}, s, ids)
    | root :: _ =>
      let write := e.settings.write
      let (outcome, s) := writeRecords s e.table write.batchSize write.retryPolicy.retries expansion.records
      let node := reduce e.schema now.seconds root expansion.records
      (.withErrors { node, unprocessed := outcome.undone } outcome.errors, s, ids)

/-- Reads the edges of a node along sides of its type; a side that cannot be read is reported and passed over. -/
def edgesAlong (e : Engine) (s : σ) (now : Int64) (id : String) : List EdgeSide → List Record × List GraphError × σ
  | [] => ([], [], s)
  | side :: rest =>
    let (answer, s) := (e.reader now).all s id side e.settings.query.queryAllLimit none
    let (records, errors, s) := e.edgesAlong s now id rest
    match answer with
    | .ok page => (page.edges.map Record.edge ++ records, errors, s)
    | .error fault => (records, fault :: errors, s)

/-- A node with its neighbors under every edge field of its type. -/
def get (e : Engine) (s : σ) (now : Int64) (id : String) : Response (Option Fields) × σ :=
  let (hydrated, s) := e.look s now [id]
  match hydrated.nodes with
  | [] => (.withErrors none (hydrated.errors ++ [.noNode id]), s)
  | node :: _ =>
    let (records, errors, s) := e.edgesAlong s now id (e.schema.sidesOf node.typeName)
    (.withErrors (reduce e.schema now id (records ++ [.node node])) (hydrated.errors ++ errors), s)

/-- The side and the root of a traversal. -/
def resolve (e : Engine) (r : ConnectionRequest) : Except GraphError (EdgeSide × String) :=
  match e.schema.side? r.typeName r.field with
  | none => .error (.input (.unknownEdge r.typeName r.field))
  | some side =>
    match r.rootId? with
    | none => .error (.input .noRootId)
    | some root => .ok (side, root)

/-- The first live neighbor under an edge field. -/
def connection (e : Engine) (s : σ) (now : Int64) (r : ConnectionRequest) : Response (Option Fields) × σ :=
  match e.resolve r with
  | .error fault => (.failed none fault, s)
  | .ok (side, root) =>
    let reader := e.reader now
    let limit := limitOr e.settings.query.singularLimit r.arguments.limit
    match reader.firstNeighbors s side (reader.query root side limit none) with
    | (.error fault, s) => (.failed none fault, s)
    | (.ok neighbors, s) =>
      let (hydrated, s) := e.look s now neighbors
      (.withErrors ((orderByIds neighbors hydrated.nodes).head?.map Node.toOutput) hydrated.errors, s)

/-- The filter of a traversal; none where none is given, or one that asks for nothing. -/
def readFilter (r : ConnectionRequest) : Except GraphError (Option Filter) :=
  match r.arguments.filter with
  | none => .ok none
  | some .null => .ok none
  | some j =>
    match Filter.ofJson j with
    | .error fault => .error fault
    | .ok filter => .ok (if filter.isEmpty then none else some filter)

/-- Reads the neighbors of a traversal: one page, or all of them where they are to be filtered. -/
def neighbors (e : Engine) (s : σ) (now : Int64) (r : ConnectionRequest) (side : EdgeSide) (root : String) (limit : Nat)
    (filter : Option Filter) : Except GraphError EdgePage × σ :=
  match filter with
  | some _ => (e.reader now).all s root side e.settings.query.queryAllLimit r.arguments.cursor
  | none => (e.reader now).page s root side limit r.arguments.cursor

/-- What a traversal keeps of the nodes it found: with a filter, so many at most of those that the filter keeps. -/
def narrowed (limit : Nat) (filter : Option Filter) (nodes : List Fields) : List Fields :=
  match filter with
  | some f => (f.apply nodes).take limit
  | none => nodes

/-- A page of the neighbors under an edge field, and the cursor of the next page. With a filter all neighbors are read
and there is no next page. -/
def connectionPlural (e : Engine) (s : σ) (now : Int64) (r : ConnectionRequest) : Response ConnectionPage × σ :=
  match e.resolve r with
  | .error fault => (.failed {} fault, s)
  | .ok (side, root) =>
    match readFilter r with
    | .error fault => (.failed {} fault, s)
    | .ok filter =>
      let limit := limitOr e.settings.query.defaultLimit r.arguments.limit
      match e.neighbors s now r side root limit filter with
      | (.error fault, s) => (.failed {} fault, s)
      | (.ok page, s) =>
        let (hydrated, s) := e.look s now page.neighbors
        let edges := narrowed limit filter ((orderByIds page.neighbors hydrated.nodes).map Node.toOutput)
        (.withErrors { edges, count := toString edges.length, cursor := page.cursor } hydrated.errors, s)

/-- The time to live that a deletion writes. -/
def deletionTtl (e : Engine) (now : Int64) (r : DeleteRequest) : Int64 :=
  effectiveTtl r.timeToLive? now e.settings.delete.graceMinutes

/-- Deletes the node of the target's id. -/
def delete (e : Engine) (s : σ) (now : Int64) (r : DeleteRequest) : Response DeleteCount × σ :=
  match r.target.namedId? with
  | none => (.failed {} (.input .noIdToDelete), s)
  | some id =>
    let (deleted, s) := softDelete s e.table e.settings.query.queryAllLimit id (e.deletionTtl now r) now
    (.withErrors ⟨deleted.count⟩ deleted.errors, s)

/-- Deletes the nodes of the target's ids, all with one time to live. -/
def deleteMany (e : Engine) (s : σ) (now : Int64) (r : DeleteRequest) : Response DeleteCount × σ :=
  if r.target.ids.isEmpty then (.failed {} (.input .noIdsToDelete), s)
  else
    let (deleted, s) := softDeleteMany s e.table e.settings.query.queryAllLimit (e.deletionTtl now r) now r.target.ids
    (.withErrors ⟨deleted.count⟩ deleted.errors, s)

end Engine

end PropertyGraph
