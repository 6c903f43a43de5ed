import PropertyGraph.Proofs.JsonText
import PropertyGraph.Proofs.StrictReading
import PropertyGraph.Request.Wire
import PropertyGraph.Response.Wire
import PropertyGraph.Schema.Wire

/-!
# Requests, responses and schemas are stable on the wire

What is read from a JSON value is read again from what it is written as, and is then written as before
(`Json.IsStable`). The JSON that comes in need not be the JSON that goes out: members that are not named go, arrays
become objects, an absent member may become null, and a principal flag becomes a text in upper case. It is shown for
the members first, of each kind of member once: those that must be there, those that have a default, those that may be
null, and those of any content, of which null stands for none at all. A structure is stable where its members are. All
of this is said of JSON values, as the readers get them; that sides come back from their text as well needs no more
than that they hold no numbers (`wire_forms_are_stable`).
-/

namespace PropertyGraph

/-! ## Members -/

namespace Json

/-- What is read is read again from what it is written as, and is then written as before. -/
def IsStable {α : Type} (read : Json → Option α) (write : α → Json) : Prop :=
  ∀ j x, read j = some x → read (write x) = some x ∧ (read (write x)).map write = some (write x)

section Members

variable {α : Type} {read : Json → Option α} {write : α → Json} {members : List (String × Json)} {name : String}

/-- It is enough that what is read is read again: it is one value, and it is written in one way. -/
theorem isStable_of_read (h : ∀ j x, read j = some x → read (write x) = some x) : IsStable read write := by
  intro j x hread
  rw [h j x hread]
  exact ⟨rfl, rfl⟩

theorem isStable_of_read_write (h : ∀ x, read (write x) = some x) : IsStable read write :=
  isStable_of_read fun _ x _ => h x

/-- A member that must be there is read again. -/
theorem IsStable.of_required (h : IsStable read write) {x : α} (hread : required? read members name = some x) :
    read (write x) = some x := by
  obtain ⟨j, -, hj⟩ := Option.bind_eq_some_iff.mp hread
  exact (h j x hj).1

/-- A member with a default is read again, where the default is. -/
theorem IsStable.of_defaulted (h : IsStable read write) {default x : α} (hdefault : read (write default) = some default)
    (hread : defaulted? default read members name = some x) : read (write x) = some x := by
  unfold defaulted? at hread
  split at hread
  · exact (h _ x hread).1
  · obtain rfl := Option.some.inj hread
    exact hdefault

/-- A value that may be null is read back where it is read back when it is there: then it is not written as null. -/
theorem nullable?_ofOption (hnull : read .null = none) {x : Option α} (h : ∀ a, x = some a → read (write a) = some a) :
    nullable? read (ofOption write x) = some x := by
  cases x with
  | none => rfl
  | some a =>
    have ha : read (write a) = some a := h a rfl
    have hne : write a ≠ .null := by
      intro heq
      rw [heq, hnull] at ha
      cases ha
    rw [ofOption, nullable?, ha, Option.map_some]
    exact hne

/-- A form whose values may be null is stable, where it does not take null itself. -/
theorem IsStable.nullable (h : IsStable read write) (hnull : read .null = none) :
    IsStable (nullable? read) (ofOption write) := by
  refine isStable_of_read fun j x hread => nullable?_ofOption hnull fun a ha => ?_
  subst ha
  unfold nullable? at hread
  split at hread
  · cases hread
  · obtain ⟨b, hb, hsome⟩ := Option.map_eq_some_iff.mp hread
    obtain rfl := Option.some.inj hsome
    exact (h _ b hb).1

/-- A member that may be absent or null is read again. -/
theorem IsStable.of_optional (h : IsStable read write) (hnull : read .null = none) {x : Option α}
    (hread : optional? read members name = some x) : nullable? read (ofOption write x) = some x :=
  (h.nullable hnull).of_defaulted rfl hread

/-- A form of lists is stable where that of the items is. -/
theorem IsStable.list (h : IsStable read write) : IsStable (list? read) (fun xs => .array (xs.map write)) := by
  refine isStable_of_read fun j xs hread => ?_
  cases j with
  | array items =>
    have hitems : items.map read = xs.map some := mapM_eq_some_iff.mp hread
    refine mapM_map_eq_some fun x hx => ?_
    have hmem : some x ∈ items.map read := hitems ▸ List.mem_map_of_mem hx
    obtain ⟨item, -, hitem⟩ := List.mem_map.mp hmem
    exact (h item x hitem).1
  | _ => cases hread

/-- A value of any content that may be null is stable: what is there is not null. -/
theorem isStable_anything : IsStable (nullable? some) fun x => x.getD .null := by
  refine isStable_of_read fun j x hread => ?_
  cases j with
  | null =>
    obtain rfl := Option.some.inj hread
    rfl
  | _ =>
    obtain rfl := Option.some.inj hread
    rfl

theorem nullable?_of_anything {x : Option Json} (hread : optional? some members name = some x) :
    nullable? some (x.getD .null) = some x :=
  isStable_anything.of_defaulted rfl hread

end Members

theorem isStable_string : IsStable string? .string := isStable_of_read_write fun _ => rfl

/-- A count that a number holds is read back. -/
theorem nat?_count {n : Nat} (h : n ≤ largest) : nat? largest (count n) = some n := by
  have hleast : min n largest = n := Nat.min_eq_left h
  unfold count Number.ofNat
  split
  next hlarge =>
    have hword : (UInt64.ofNat (min n largest)).toNat = n := by
      rw [hleast]
      exact UInt64.toNat_ofNat_of_lt' (Nat.lt_of_le_of_lt h (by decide))
    rw [nat?, hword, if_pos h]
  next hsmall =>
    rw [hleast] at hsmall
    have hword : (Int64.ofNat n).toInt = n := Int64.toInt_ofNat_of_lt (by omega)
    rw [nat?, hword, if_pos ⟨Int.natCast_nonneg n, Int.ofNat_le.mpr h⟩, Int.toNat_natCast]

/-- Counts are stable: none is read that a number does not hold. -/
theorem isStable_count : IsStable (nat? largest) count := by
  refine isStable_of_read fun j n hread => nat?_count ?_
  unfold nat? at hread
  split at hread
  · rw [Option.ite_none_right_eq_some] at hread
    obtain ⟨⟨hleast, hmost⟩, heq⟩ := hread
    obtain rfl := Option.some.inj heq
    omega
  · rw [Option.ite_none_right_eq_some] at hread
    obtain ⟨hmost, heq⟩ := hread
    obtain rfl := Option.some.inj heq
    exact hmost
  · cases hread

end Json

/-- Fields are stable: their numbers are finite, and no name comes twice. -/
theorem Fields.isStable : Json.IsStable Fields.read? Fields.write := by
  refine Json.isStable_of_read fun j fields hread => ?_
  obtain ⟨v, hv, hnode⟩ := Option.bind_eq_some_iff.mp hread
  have hfields : v = .node fields := by
    cases v with
    | node _ => exact congrArg Value.node (Option.some.inj hnode)
    | _ => cases hnode
  have hback : Value.read? v.write = some v :=
    Value.read?_write (Value.isFinite_of_read? hv) (Value.hasDistinctNames_of_read? hv)
  rw [hfields] at hback
  exact Option.bind_eq_some_iff.mpr ⟨_, hback, rfl⟩

/-! ## Requests -/

/-- Targets are read back, whether they name ids or not. -/
theorem Target.read?_write (t : Target) : read? t.write = some t := by
  obtain ⟨id, ids⟩ := t
  have hids : Json.list? Json.string? (.array (ids.map Json.string)) = some ids := mapM_map_eq_some fun _ _ => rfl
  cases ids with
  | nil => cases id <;> rfl
  | cons first rest =>
    have hread : read? (write ⟨id, first :: rest⟩) = do
        let ids ← Json.list? Json.string? (.array ((first :: rest).map Json.string))
        return ⟨id, ids⟩ := by
      cases id <;> rfl
    rw [hread, hids]
    rfl

theorem Target.isStable : Json.IsStable Target.read? Target.write := Json.isStable_of_read_write Target.read?_write

namespace CreateRequest

/-- A create is read member by member from what it is written as; connections that are not written are as good as null.
-/
theorem read?_write (r : CreateRequest) : read? r.write = do
    let data ← Json.nullable? some (r.data.getD .null)
    let connections ← Json.nullable? some (r.connections.getD .null)
    return { data, connections } := by
  obtain ⟨data, connections⟩ := r
  cases connections <;> rfl

/-- A create that is read from any members is read back. -/
theorem read?_write_of_ofMembers? {members : List (String × Json)} {r : CreateRequest}
    (h : ofMembers? members = some r) : read? r.write = some r := by
  obtain ⟨data, hdata, h⟩ := Option.bind_eq_some_iff.mp h
  obtain ⟨connections, hconnections, h⟩ := Option.bind_eq_some_iff.mp h
  obtain rfl := Option.some.inj h
  rw [read?_write, Json.nullable?_of_anything hdata, Json.nullable?_of_anything hconnections]
  rfl

theorem isStable : Json.IsStable read? write := by
  refine Json.isStable_of_read fun j r hread => ?_
  obtain ⟨members, -, hmembers⟩ := Option.bind_eq_some_iff.mp hread
  exact read?_write_of_ofMembers? hmembers

end CreateRequest

namespace UpsertRequest

/-- An upsert is read from what it is written as: its target, and beside it the create. -/
theorem read?_write (r : UpsertRequest) : read? r.write = do
    let target ← Json.nullable? Target.read? (Json.ofOption Target.write r.target)
    let create ← CreateRequest.read? r.create.write
    return { target, create } := by
  obtain ⟨target, data, connections⟩ := r
  cases connections <;> rfl

/-- Upserts are stable. -/
theorem isStable : Json.IsStable read? write := by
  refine Json.isStable_of_read fun j r hread => ?_
  obtain ⟨members, -, hread⟩ := Option.bind_eq_some_iff.mp hread
  obtain ⟨target, htarget, hread⟩ := Option.bind_eq_some_iff.mp hread
  obtain ⟨create, hcreate, hread⟩ := Option.bind_eq_some_iff.mp hread
  obtain rfl := Option.some.inj hread
  rw [read?_write, Target.isStable.of_optional rfl htarget, CreateRequest.read?_write_of_ofMembers? hcreate]
  rfl

end UpsertRequest

namespace ConnectionArguments

/-- What narrows a traversal is read member by member from what it is written as. -/
theorem read?_write (a : ConnectionArguments) : read? a.write = do
    let target ← Json.nullable? Target.read? (Json.ofOption Target.write a.target)
    let limit ← Json.nullable? (Json.nat? Json.largest) (Json.ofOption Json.count a.limit)
    let cursor ← Json.nullable? Json.string? (Json.ofOption Json.string a.cursor)
    let filter ← Json.nullable? some (a.filter.getD .null)
    return { target, limit, cursor, filter } := rfl

/-- What narrows a traversal is stable. -/
theorem isStable : Json.IsStable read? write := by
  refine Json.isStable_of_read fun j a hread => ?_
  obtain ⟨members, -, hread⟩ := Option.bind_eq_some_iff.mp hread
  obtain ⟨target, htarget, hread⟩ := Option.bind_eq_some_iff.mp hread
  obtain ⟨limit, hlimit, hread⟩ := Option.bind_eq_some_iff.mp hread
  obtain ⟨cursor, hcursor, hread⟩ := Option.bind_eq_some_iff.mp hread
  obtain ⟨filter, hfilter, hread⟩ := Option.bind_eq_some_iff.mp hread
  obtain rfl := Option.some.inj hread
  rw [read?_write, Target.isStable.of_optional rfl htarget, Json.isStable_count.of_optional rfl hlimit,
    Json.isStable_string.of_optional rfl hcursor, Json.nullable?_of_anything hfilter]
  rfl

end ConnectionArguments

namespace ConnectionRequest

/-- A traversal is read member by member from what it is written as. -/
theorem read?_write (r : ConnectionRequest) : read? r.write = do
    let source ← Json.nullable? some (r.source.getD .null)
    let arguments ← ConnectionArguments.read? r.arguments.write
    return { r with source, arguments } := rfl

/-- Traversals are stable. -/
theorem isStable : Json.IsStable read? write := by
  refine Json.isStable_of_read fun j r hread => ?_
  obtain ⟨members, -, hread⟩ := Option.bind_eq_some_iff.mp hread
  obtain ⟨typeName, -, hread⟩ := Option.bind_eq_some_iff.mp hread
  obtain ⟨field, -, hread⟩ := Option.bind_eq_some_iff.mp hread
  obtain ⟨source, hsource, hread⟩ := Option.bind_eq_some_iff.mp hread
  obtain ⟨arguments, harguments, hread⟩ := Option.bind_eq_some_iff.mp hread
  obtain rfl := Option.some.inj hread
  rw [read?_write, Json.nullable?_of_anything hsource, ConnectionArguments.isStable.of_defaulted rfl harguments]
  rfl

end ConnectionRequest

theorem Marking.read?_write (m : Marking) : read? m.write = some m := by
  obtain ⟨timeToLive⟩ := m
  cases timeToLive <;> rfl

theorem Marking.isStable : Json.IsStable Marking.read? Marking.write := Json.isStable_of_read_write Marking.read?_write

/-- Deletions are read back. -/
theorem DeleteRequest.read?_write (r : DeleteRequest) : read? r.write = some r := by
  have hmembers : read? r.write = do
      let target ← Target.read? r.target.write
      let marking ← Json.nullable? Marking.read? (Json.ofOption Marking.write r.marking)
      return { target, marking } := rfl
  rw [hmembers, Target.read?_write, Json.nullable?_ofOption rfl fun marking _ => marking.read?_write]
  rfl

theorem DeleteRequest.isStable : Json.IsStable DeleteRequest.read? DeleteRequest.write :=
  Json.isStable_of_read_write DeleteRequest.read?_write

/-! ## Responses -/

namespace UpsertResult

/-- The answer to an upsert is read member by member from what it is written as. -/
theorem read?_write (r : UpsertResult) : read? r.write = do
    let node ← Json.nullable? Fields.read? (Json.ofOption Fields.write r.node)
    let unprocessed ← Json.list? Fields.read? (.array (r.unprocessed.map Fields.write))
    return { node, unprocessed } := rfl

/-- Answers to upserts are stable. -/
theorem isStable : Json.IsStable read? write := by
  refine Json.isStable_of_read fun j r hread => ?_
  obtain ⟨members, -, hread⟩ := Option.bind_eq_some_iff.mp hread
  obtain ⟨node, hnode, hread⟩ := Option.bind_eq_some_iff.mp hread
  obtain ⟨unprocessed, hunprocessed, hread⟩ := Option.bind_eq_some_iff.mp hread
  obtain rfl := Option.some.inj hread
  rw [read?_write, Fields.isStable.of_optional rfl hnode, Fields.isStable.list.of_required hunprocessed]
  rfl

end UpsertResult

namespace ConnectionPage

/-- The answer to a plural traversal is read member by member from what it is written as. -/
theorem read?_write (p : ConnectionPage) : read? p.write = do
    let edges ← Json.list? Fields.read? (.array (p.edges.map Fields.write))
    let cursor ← Json.nullable? Json.string? (Json.ofOption Json.string p.cursor)
    return { p with edges, cursor } := rfl

/-- Answers to plural traversals are stable. -/
theorem isStable : Json.IsStable read? write := by
  refine Json.isStable_of_read fun j p hread => ?_
  obtain ⟨members, -, hread⟩ := Option.bind_eq_some_iff.mp hread
  obtain ⟨edges, hedges, hread⟩ := Option.bind_eq_some_iff.mp hread
  obtain ⟨count, -, hread⟩ := Option.bind_eq_some_iff.mp hread
  obtain ⟨cursor, hcursor, hread⟩ := Option.bind_eq_some_iff.mp hread
  obtain rfl := Option.some.inj hread
  rw [read?_write, Fields.isStable.list.of_required hedges, Json.isStable_string.of_optional rfl hcursor]
  rfl

end ConnectionPage

namespace DeleteCount

theorem read?_write (c : DeleteCount) : read? c.write = do
    let count ← Json.nat? Json.largest (.count c.count)
    return { count } := rfl

/-- Answers to deletions are stable. -/
theorem isStable : Json.IsStable read? write := by
  refine Json.isStable_of_read fun j c hread => ?_
  obtain ⟨members, -, hread⟩ := Option.bind_eq_some_iff.mp hread
  obtain ⟨count, hcount, hread⟩ := Option.bind_eq_some_iff.mp hread
  obtain rfl := Option.some.inj hread
  rw [read?_write, Json.isStable_count.of_required hcount]
  rfl

end DeleteCount

namespace Response

variable {α : Type} {data? : Json → Option α} {write : α → Json}

/-- A response is read member by member from what it is written as. -/
theorem read?_write (r : Response α) : read? data? (r.write write) = do
    let data ← data? (write r.data)
    let errors ← Json.list? Json.string? (.array (r.errors.map Json.string))
    return { data, errors } := rfl

/-- Responses are stable where their data is. -/
theorem isStable (h : Json.IsStable data? write) : Json.IsStable (read? data?) (Response.write write) := by
  refine Json.isStable_of_read fun j r hread => ?_
  obtain ⟨members, -, hread⟩ := Option.bind_eq_some_iff.mp hread
  obtain ⟨data, hdata, hread⟩ := Option.bind_eq_some_iff.mp hread
  obtain ⟨errors, herrors, hread⟩ := Option.bind_eq_some_iff.mp hread
  obtain rfl := Option.some.inj hread
  rw [read?_write, h.of_required hdata, Json.isStable_string.list.of_required herrors]
  rfl

end Response

/-! ## Schemas -/

theorem Cardinality.lookup_name (c : Cardinality) : options.lookup c.name = some c := by
  cases c <;> rfl

theorem flag?_flagText (principal : Bool) : flag? (flagText principal) = some principal := by
  cases principal <;> rfl

/-- A side is read back, whatever its texts, flags and cardinality are. -/
theorem EdgeSide.read?_write (side : EdgeSide) : read? side.write = some side := by
  have hmembers : read? side.write = do
      let cardinality ← Cardinality.options.lookup side.cardinality.name
      let principal ← flag? (flagText side.principal)
      return { side with cardinality, principal } := rfl
  rw [hmembers, Cardinality.lookup_name, flag?_flagText]
  rfl

theorem EdgeSide.isStable : Json.IsStable EdgeSide.read? EdgeSide.write :=
  Json.isStable_of_read_write EdgeSide.read?_write

theorem EdgeSide.write_is_shallow (side : EdgeSide) : side.write.isNumberless = true ∧ side.write.depth = 2 :=
  ⟨rfl, rfl⟩

namespace Json

/-- An array whose items have no number in them has none. -/
theorem isNumberless_array {items : List Json} (h : ∀ j ∈ items, j.isNumberless = true) :
    (array items).isNumberless = true := by
  rw [isNumberless]
  induction items with
  | nil => rfl
  | cons j rest ih =>
    obtain ⟨hfirst, hrest⟩ := List.forall_mem_cons.mp h
    rw [itemsNumberless, hfirst, ih hrest, Bool.and_self]

/-- An array nests one deeper than its items at most. -/
theorem depth_array_le {items : List Json} {most : Nat} (h : ∀ j ∈ items, j.depth ≤ most) :
    (array items).depth ≤ most + 1 := by
  rw [depth]
  refine Nat.succ_le_succ ?_
  induction items with
  | nil => exact Nat.zero_le _
  | cons j rest ih =>
    obtain ⟨hfirst, hrest⟩ := List.forall_mem_cons.mp h
    rw [itemsDepth]
    exact Nat.max_le.mpr ⟨hfirst, ih hrest⟩

end Json

/-- The schema of the text of sides is the schema of these sides. -/
theorem Schema.parse_sides (sides : List EdgeSide) :
    parse (Json.array (sides.map EdgeSide.write)).render = .ok (ofSides sides) := by
  have hnumberless : (Json.array (sides.map EdgeSide.write)).isNumberless = true :=
    Json.isNumberless_array (List.forall_mem_map.mpr fun side _ => side.write_is_shallow.1)
  have hdepth : (Json.array (sides.map EdgeSide.write)).depth ≤ 3 :=
    Json.depth_array_le (List.forall_mem_map.mpr fun side _ => Nat.le_of_eq side.write_is_shallow.2)
  have hsides : Json.list? EdgeSide.read? (.array (sides.map EdgeSide.write)) = some sides :=
    mapM_map_eq_some fun side _ => side.read?_write
  rw [parse, Json.parseAs?_render hnumberless (Nat.le_trans hdepth (by decide)), Option.bind_some, read?, hsides,
    Option.map_some]

/-! ## All of them -/

/-- What goes over the wire is stable.
1. Whatever JSON value is read as a side, a request or a part of one, or an answer, what was read is read again from
   what it is written as, and is then written as before.
2. The text of any sides is read as a schema of exactly these sides, in this order. -/
theorem wire_forms_are_stable :
    (Json.IsStable EdgeSide.read? EdgeSide.write ∧ Json.IsStable Target.read? Target.write ∧
      Json.IsStable CreateRequest.read? CreateRequest.write ∧ Json.IsStable UpsertRequest.read? UpsertRequest.write ∧
      Json.IsStable UpsertResult.read? UpsertResult.write ∧
      Json.IsStable ConnectionArguments.read? ConnectionArguments.write ∧
      Json.IsStable ConnectionRequest.read? ConnectionRequest.write ∧
      Json.IsStable ConnectionPage.read? ConnectionPage.write ∧
      Json.IsStable Marking.read? Marking.write ∧ Json.IsStable DeleteRequest.read? DeleteRequest.write ∧
      Json.IsStable (Response.read? DeleteCount.read?) (Response.write DeleteCount.write) ∧
      Json.IsStable (Response.read? ConnectionPage.read?) (Response.write ConnectionPage.write)) ∧
    ∀ sides : List EdgeSide,
      (Schema.parse (Json.array (sides.map EdgeSide.write)).render).map Schema.sides = .ok sides := by
  refine ⟨⟨EdgeSide.isStable, Target.isStable, CreateRequest.isStable, UpsertRequest.isStable, UpsertResult.isStable,
    ConnectionArguments.isStable, ConnectionRequest.isStable, ConnectionPage.isStable, Marking.isStable,
      DeleteRequest.isStable,
    Response.isStable DeleteCount.isStable, Response.isStable ConnectionPage.isStable⟩, fun sides => ?_⟩
  rw [Schema.parse_sides]
  rfl

namespace Sample

/-- An upsert with members that are null, absent and unknown. -/
def looseUpsert : Json :=
  .object [("connections", .null), ("where", .object [("ids", .array [.string "7"]), ("id", .null)]), ("note", .int 1)]

/-- A side as an array, with its flag in letters of either case. -/
def looseSide : Json :=
  .array [.string "Order", .string "customer", .string "Customer", .string "OrdersOnCustomer", .bool true,
    .object [("ONE", .null)], .string "fAlse", .array [.string "Customer", .string "orders"]]

/-- Both are written in another way than they came, and are read again as they were. -/
theorem loose_forms_are_read_again :
    (∃ upsert : UpsertRequest, UpsertRequest.read? looseUpsert = some upsert ∧
      upsert.write = .object [("where", .object [("ids", .array [.string "7"])]), ("data", .null)] ∧
      UpsertRequest.read? upsert.write = some upsert) ∧
    ∃ side : EdgeSide, EdgeSide.read? looseSide = some side ∧ flagText side.principal = .string "FALSE" ∧
      EdgeSide.read? side.write = some side ∧
        (Schema.parse (Json.array [side.write]).render).map Schema.sides = .ok [side] := by
  obtain ⟨⟨hside, -, -, hupsert, -⟩, hsides⟩ := wire_forms_are_stable
  have hread : UpsertRequest.read? looseUpsert = some ⟨some ⟨none, ["7"]⟩, ⟨none, none⟩⟩ := rfl
  have hloose : EdgeSide.read? looseSide =
      some ⟨⟨"Order", "customer"⟩, "Customer", "OrdersOnCustomer", true, .one, false, ⟨"Customer", "orders"⟩⟩ := rfl
  exact ⟨⟨_, hread, rfl, (hupsert _ _ hread).1⟩, _, hloose, rfl, (hside _ _ hloose).1, hsides [_]⟩

end Sample

end PropertyGraph
