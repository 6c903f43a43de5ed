import PropertyGraph.Dict

/-!
# JSON values

A JSON value is a tree whose objects keep their members in the order of the text, repeated names included. What an
object means is its sorted view (`Json.members?`): a finite map in which the last of several members of one name
counts. Everything that reads a payload or a filter goes through that view, so no answer depends on the order in which
a client writes its members.

A number is an integer that fits 64 bits, signed or unsigned, or a finite binary64 number; a numeral with a fraction or
an exponent is never an integer.
-/

namespace PropertyGraph

/-- A JSON number. -/
inductive Json.Number where
  /-- An integer of the signed 64-bit range. -/
  | int (n : Int64)
  /-- An integer above the signed range that fits 64 bits without a sign. -/
  | large (n : UInt64) (above : 0x8000000000000000 ≤ n.toNat)
  /-- Any other number. -/
  | real (x : Float) (finite : x.isFinite = true)

/-- A JSON value. -/
inductive Json where
  | null
  | bool (b : Bool)
  | number (n : Json.Number)
  | string (s : String)
  | array (items : List Json)
  | object (members : List (String × Json))

namespace Json

instance : Inhabited Json := ⟨.null⟩

/-- An integer of the signed range. -/
def int (n : Int64) : Json := .number (.int n)

/-- The largest integer that a JSON number holds. -/
def largest : Nat := 0xFFFFFFFFFFFFFFFF

/-- A count as a number; a count above the largest integer is written as that integer. -/
def Number.ofNat (n : Nat) : Number :=
  if h : 0x8000000000000000 ≤ min n largest then
    .large (UInt64.ofNat (min n largest)) (by
      have hl : min n largest < 0x10000000000000000 := Nat.lt_of_le_of_lt (Nat.min_le_right ..) (by decide)
      rw [UInt64.toNat_ofNat']
      rw [Nat.mod_eq_of_lt hl]
      exact h)
  else .int (Int64.ofNat n)

/-- A count. -/
def count (n : Nat) : Json := .number (.ofNat n)

/-- A floating point number, which is null where it is not finite. -/
def ofFloat (x : Float) : Json := if h : x.isFinite = true then .number (.real x h) else .null

/-- A floating point number, where it is finite. -/
def Number.ofFloat? (x : Float) : Option Number := if h : x.isFinite = true then some (.real x h) else none

/-- Whether the value is null. -/
def isNull : Json → Bool
  | .null => true
  | _ => false

/-- The boolean, where the value is one. -/
def bool? : Json → Option Bool
  | .bool b => some b
  | _ => none

/-- The text, where the value is one. -/
def string? : Json → Option String
  | .string s => some s
  | _ => none

/-- The items, where the value is an array. -/
def array? : Json → Option (List Json)
  | .array items => some items
  | _ => none

/-- The integer, where the value is one of the signed range. -/
def int? : Json → Option Int64
  | .number (.int n) => some n
  | _ => none

/-- The integer, where the value is one that is not negative and at most `most`. -/
def nat? (most : Nat) : Json → Option Nat
  | .number (.int n) => if 0 ≤ n.toInt ∧ n.toInt ≤ (most : Int) then some n.toInt.toNat else none
  | .number (.large n _) => if n.toNat ≤ most then some n.toNat else none
  | _ => none

/-- The members of an object as a map: in the order of the names, and of several of one name the last. -/
def members? : Json → Option (Dict Json)
  | .object members => some (Dict.ofList members)
  | _ => none

/-- The member of a name, where the value is an object with one. -/
def get? (j : Json) (name : String) : Option Json := j.members?.bind (·.get? name)

mutual

/-- The value with the members of every object in the order of the names, and of several of one name only the last. -/
def sorted : Json → Json
  | .array items => .array (sortedItems items)
  | .object members => .object (sortedBy Prod.fst (sortedMembers members))
  | j => j

/-- The items of an array, each of them sorted. -/
def sortedItems : List Json → List Json
  | [] => []
  | j :: rest => sorted j :: sortedItems rest

/-- The members of an object, in order, with their contents sorted. -/
def sortedMembers : List (String × Json) → List (String × Json)
  | [] => []
  | (name, j) :: rest => (name, sorted j) :: sortedMembers rest

end

/-- What a dictionary has under a name is one of its contents. -/
theorem mem_of_lookup {α : Type} {name : String} {content : α} :
    ∀ {entries : List (String × α)}, entries.lookup name = some content → (name, content) ∈ entries
  | [], h => by simp at h
  | (other, first) :: rest, h => by
    by_cases ho : name = other
    · subst ho
      simp only [List.lookup_cons, beq_self_eq_true, Option.some.injEq] at h
      exact h ▸ List.mem_cons_self ..
    · have hb : (name == other) = false := beq_eq_false_iff_ne.mpr ho
      rw [List.lookup_cons, hb] at h
      exact List.mem_cons_of_mem _ (mem_of_lookup h)

/-- A member is smaller than its object. -/
theorem sizeOf_get?_lt {j content : Json} {name : String} (h : j.get? name = some content) :
    sizeOf content < sizeOf j := by
  cases j with
  | object members =>
    have hm := SortedAux.mem_of_mem_sortedBy
      (mem_of_lookup (show (Dict.ofList members).entries.lookup name = some content from h))
    have := List.sizeOf_lt_of_mem hm
    simp only [Prod.mk.sizeOf_spec] at this
    simp only [Json.object.sizeOf_spec]
    omega
  | _ => simp [get?, members?] at h

end Json

end PropertyGraph
