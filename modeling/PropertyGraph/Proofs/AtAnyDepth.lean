import PropertyGraph.Json.Values
import PropertyGraph.Proofs.Ascending

/-!
# What stands in a value at any depth

Field values and JSON values hold others of their kind, which hold others again. What stands in a value at any depth is
said here once for both (`StandsIn`, `Everywhere`), over what each holds directly (`Value.contents`, `Json.contents`).
The functions between the two kinds are defined over lists by recursions of their own; here they are maps over the
lists, so that later proofs go by induction on a value, with what is known of each of its contents.
-/

namespace PropertyGraph

section Contents

variable {α : Type} {contents : α → List α} {holds : α → Prop} {whole : α}

/-- Whether something is a whole or stands in it, at any depth. -/
inductive StandsIn (contents : α → List α) (part : α) : α → Prop
  | self : StandsIn contents part part
  | inside {content whole : α} (hcontent : content ∈ contents whole) (h : StandsIn contents part content) :
      StandsIn contents part whole

/-- Whether something is true of a whole and of all that stands in it. -/
def Everywhere (contents : α → List α) (holds : α → Prop) (whole : α) : Prop :=
  ∀ part, StandsIn contents part whole → holds part

/-- Something is true everywhere in a whole where it is true of the whole and everywhere in its contents. -/
theorem everywhere_iff : Everywhere contents holds whole ↔
    holds whole ∧ ∀ content ∈ contents whole, Everywhere contents holds content := by
  constructor
  · exact fun h => ⟨h whole .self, fun content hcontent part hpart => h part (.inside hcontent hpart)⟩
  · rintro ⟨hself, hcontents⟩ part hpart
    cases hpart with
    | self => exact hself
    | inside hcontent hpart => exact hcontents _ hcontent part hpart

end Contents

/-- What an entry holds is smaller than the entries. -/
theorem sizeOf_lt_of_mem_entries {α : Type} [SizeOf α] {entries : List (String × α)} {content : α}
    (h : content ∈ entries.map Prod.snd) : sizeOf content < sizeOf entries := by
  obtain ⟨⟨name, _⟩, hmem, rfl⟩ := List.mem_map.mp h
  have hentry := List.sizeOf_lt_of_mem hmem
  rw [Prod.mk.sizeOf_spec] at hentry
  dsimp only
  omega

theorem snd_mem_of_mem_sortedBy {α : Type} {entries : List (String × α)} {entry : String × α}
    (h : entry ∈ sortedBy Prod.fst entries) :
    entry.2 ∈ entries.map Prod.snd := List.mem_map_of_mem (SortedAux.mem_of_mem_sortedBy h)

/-- Entries stay as they are under a change that leaves alone what they hold. -/
theorem map_entries_eq_self {α : Type} {entries : List (String × α)} {change : α → α}
    (h : ∀ content ∈ entries.map Prod.snd, change content = content) :
    (entries.map fun entry => (entry.1, change entry.2)) = entries := by
  have hentries : ∀ entry ∈ entries, (entry.1, change entry.2) = entry :=
    fun entry hentry => by rw [h _ (List.mem_map_of_mem hentry)]
  rw [List.map_congr_left hentries, List.map_id']

/-! ## Field values -/

namespace Value

/-- The values that a value holds directly. -/
def contents : Value → List Value
  | .list items => items
  | .node fields => fields.map Prod.snd
  | _ => []

/-- What a value holds is smaller than the value. -/
theorem sizeOf_contents_lt {v content : Value} (h : content ∈ v.contents) : sizeOf content < sizeOf v := by
  cases v with
  | list items =>
    have hsize := List.sizeOf_lt_of_mem (show content ∈ items from h)
    rw [list.sizeOf_spec]
    omega
  | node fields =>
    have hsize := sizeOf_lt_of_mem_entries h
    rw [node.sizeOf_spec]
    omega
  | _ => exact absurd h List.not_mem_nil

/-- Every value has a property that a value has as soon as its contents have it. -/
theorem contents_induction {motive : Value → Prop} (step : ∀ v, (∀ content ∈ v.contents, motive content) → motive v)
    (v : Value) : motive v :=
  step v fun content _ => contents_induction step content
termination_by sizeOf v
decreasing_by exact sizeOf_contents_lt ‹_›

/-- Whether every floating point number in a value is finite. -/
def IsFinite : Value → Prop := Everywhere contents fun part => ∀ x, part = .float x → x.isFinite = true

/-- Whether no name comes twice in any group of named values. -/
def HasDistinctNames : Value → Prop :=
  Everywhere contents fun part => ∀ fields, part = .node fields → (Assoc.names fields).Nodup

/-- Whether the names ascend in every group of named values. -/
def IsSorted : Value → Prop :=
  Everywhere contents fun part => ∀ fields, part = .node fields → fields.Pairwise (·.1 < ·.1)

theorem toItems_eq (items : List Value) : toItems items = items.map toJson := by
  induction items with
  | nil => rfl
  | cons v rest ih => rw [toItems, List.map_cons, ih]

theorem toMembers_eq (fields : List (String × Value)) : toMembers fields = fields.map fun m => (m.1, m.2.toJson) := by
  induction fields with
  | nil => rfl
  | cons m rest ih => rw [toMembers, List.map_cons, ih]

theorem ofItems_eq (items : List Json) : ofItems items = items.filterMap ofJson := by
  induction items with
  | nil => rfl
  | cons j rest ih =>
    rw [ofItems, List.filterMap_cons, ih]
    cases ofJson j <;> rfl

theorem ofMembers_eq (members : List (String × Json)) : ofMembers members = members.map fun m => (m.1, ofJson m.2) := by
  induction members with
  | nil => rfl
  | cons m rest ih => rw [ofMembers, List.map_cons, ih]

theorem toJson_list (items : List Value) : toJson (.list items) = .array (items.map toJson) := by
  rw [toJson, toItems_eq]

theorem toJson_node (fields : List (String × Value)) :
    toJson (.node fields) = .object ((sortedBy Prod.fst fields).map fun m => (m.1, m.2.toJson)) := by
  rw [toJson, toMembers_eq, SortedAux.sortedBy_map fun _ => rfl]

theorem ofJson_array (items : List Json) : ofJson (.array items) = some (.list (items.filterMap ofJson)) := by
  rw [ofJson, ofItems_eq]

/-- An object as a field value. -/
theorem ofJson_object (members : List (String × Json)) :
    ofJson (.object members) =
      some (.node ((sortedBy Prod.fst members).filterMap fun m => (ofJson m.2).map (m.1, ·))) := by
  rw [ofJson, ofMembers_eq, SortedAux.sortedBy_map fun _ => rfl, List.filterMap_map]
  rfl

end Value

/-! ## JSON values -/

namespace Json

/-- The values that a JSON value holds directly. -/
def contents : Json → List Json
  | .array items => items
  | .object members => members.map Prod.snd
  | _ => []

/-- What a JSON value holds is smaller than the value. -/
theorem sizeOf_contents_lt {j content : Json} (h : content ∈ j.contents) : sizeOf content < sizeOf j := by
  cases j with
  | array items =>
    have hsize := List.sizeOf_lt_of_mem (show content ∈ items from h)
    rw [array.sizeOf_spec]
    omega
  | object members =>
    have hsize := sizeOf_lt_of_mem_entries h
    rw [object.sizeOf_spec]
    omega
  | _ => exact absurd h List.not_mem_nil

theorem contents_induction {motive : Json → Prop} (step : ∀ j, (∀ content ∈ j.contents, motive content) → motive j)
    (j : Json) : motive j :=
  step j fun content _ => contents_induction step content
termination_by sizeOf j
decreasing_by exact sizeOf_contents_lt ‹_›

/-- Whether no null stands in a value. -/
def IsNullFree : Json → Prop := Everywhere contents (· ≠ .null)

/-- Whether the names ascend in every object of a value. -/
def IsSorted : Json → Prop :=
  Everywhere contents fun part => ∀ members, part = .object members → members.Pairwise (·.1 < ·.1)

theorem sortedItems_eq (items : List Json) : sortedItems items = items.map sorted := by
  induction items with
  | nil => rfl
  | cons j rest ih => rw [sortedItems, List.map_cons, ih]

theorem sortedMembers_eq (members : List (String × Json)) :
    sortedMembers members = members.map fun m => (m.1, m.2.sorted) := by
  induction members with
  | nil => rfl
  | cons m rest ih => rw [sortedMembers, List.map_cons, ih]

theorem sorted_array (items : List Json) : sorted (.array items) = .array (items.map sorted) := by
  rw [sorted, sortedItems_eq]

theorem sorted_object (members : List (String × Json)) :
    sorted (.object members) = .object ((sortedBy Prod.fst members).map fun m => (m.1, m.2.sorted)) := by
  rw [sorted, sortedMembers_eq, SortedAux.sortedBy_map fun _ => rfl]

end Json

end PropertyGraph
