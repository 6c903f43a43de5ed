import Mathlib.Data.List.Basic
import PropertyGraph.Proofs.AtAnyDepth
import PropertyGraph.Proofs.FloatRange

/-!
# Field values and JSON agree

A field value that is written as JSON and read again is the value with its names in order (`Value.ofJson_toJson`),
which is the value up to the order of names. A JSON value that is read and written again is the value without its nulls
(`Value.map_toJson_ofJson`). What is read from JSON has its names in order and finite numbers only, so that writing and
reading it once more changes nothing (`Value.values_agree_with_json`).
-/

namespace PropertyGraph

/-! ## The order of names -/

namespace Value

mutual

/-- The value with the named values of every group in the order of the names, and of several of one name only the last.
-/
def sorted : Value → Value
  | .list items => .list (sortedItems items)
  | .node fields => .node (sortedBy Prod.fst (sortedFields fields))
  | v => v

/-- The values of a list, each of them sorted. -/
def sortedItems : List Value → List Value
  | [] => []
  | v :: rest => sorted v :: sortedItems rest

/-- Named values, in order, with their contents sorted. -/
def sortedFields : List (String × Value) → List (String × Value)
  | [] => []
  | (name, v) :: rest => (name, sorted v) :: sortedFields rest

end

theorem sorted_list (items : List Value) : sorted (.list items) = .list (items.map sorted) := by
  suffices sortedItems items = items.map sorted by rw [sorted, this]
  induction items with
  | nil => rfl
  | cons v rest ih => rw [sortedItems, List.map_cons, ih]

/-- A sorted group of named values. -/
theorem sorted_node (fields : List (String × Value)) :
    sorted (.node fields) = .node ((sortedBy Prod.fst fields).map fun m => (m.1, m.2.sorted)) := by
  suffices sortedFields fields = fields.map fun m => (m.1, m.2.sorted) by
    rw [sorted, this, SortedAux.sortedBy_map fun _ => rfl]
  induction fields with
  | nil => rfl
  | cons m rest ih => rw [sortedFields, List.map_cons, ih]

/-- Whether a value becomes another one by bringing named values, at any depth, into another order. -/
inductive Reorders : Value → Value → Prop
  | refl (v : Value) : Reorders v v
  | trans {u v w : Value} (huv : Reorders u v) (hvw : Reorders v w) : Reorders u w
  | order {fields others : List (String × Value)} (h : fields.Perm others) : Reorders (.node fields) (.node others)
  | item {v w : Value} (before after : List Value) (h : Reorders v w) :
      Reorders (.list (before ++ v :: after)) (.list (before ++ w :: after))
  | content {v w : Value} (before after : List (String × Value)) (name : String) (h : Reorders v w) :
      Reorders (.node (before ++ (name, v) :: after)) (.node (before ++ (name, w) :: after))

/-- A list is reordered where each of its values is. -/
theorem reorders_list {change : Value → Value} {items : List Value} (h : ∀ v ∈ items, v.Reorders (change v))
    (before : List Value) : Reorders (.list (before ++ items)) (.list (before ++ items.map change)) := by
  induction items generalizing before with
  | nil => exact .refl _
  | cons v rest ih =>
    have hrest := ih (fun w hw => h w (List.mem_cons_of_mem _ hw)) (before ++ [change v])
    rw [List.append_assoc, List.append_assoc] at hrest
    exact (Reorders.item before rest (h v (List.mem_cons_self ..))).trans hrest

/-- Named values are reordered where each of them is. -/
theorem reorders_node {change : Value → Value} {fields : List (String × Value)}
    (h : ∀ m ∈ fields, m.2.Reorders (change m.2)) (before : List (String × Value)) :
    Reorders (.node (before ++ fields)) (.node (before ++ fields.map fun m => (m.1, change m.2))) := by
  induction fields generalizing before with
  | nil => exact .refl _
  | cons m rest ih =>
    have hrest := ih (fun n hn => h n (List.mem_cons_of_mem _ hn)) (before ++ [(m.1, change m.2)])
    rw [List.append_assoc, List.append_assoc] at hrest
    exact (Reorders.content before rest m.1 (h m (List.mem_cons_self ..))).trans hrest

/-- Where no name comes twice in a group, sorting a value brings its named values into another order. -/
theorem reorders_sorted {v : Value} (h : v.HasDistinctNames) : v.Reorders v.sorted := by
  induction v using contents_induction with
  | step v ih =>
    obtain ⟨hself, hcontents⟩ := everywhere_iff.mp h
    cases v with
    | list items =>
      rw [sorted_list]
      exact reorders_list (fun v hv => ih v hv (hcontents v hv)) []
    | node fields =>
      have hperm : (sortedBy Prod.fst fields).Perm fields := SortedAux.sortedBy_perm (hself fields rfl)
      rw [sorted_node]
      refine (Reorders.order hperm.symm).trans (reorders_node (fun m hm => ?_) [])
      have hm : m.2 ∈ contents (.node fields) := snd_mem_of_mem_sortedBy hm
      exact ih _ hm (hcontents _ hm)
    | _ => exact .refl _

/-- A value whose names ascend in every group is sorted. -/
theorem sorted_eq_self {v : Value} (h : v.IsSorted) : v.sorted = v := by
  induction v using contents_induction with
  | step v ih =>
    obtain ⟨hself, hcontents⟩ := everywhere_iff.mp h
    cases v with
    | list items =>
      have hitems : ∀ v ∈ items, v.sorted = v := fun v hv => ih v hv (hcontents v hv)
      rw [sorted_list, List.map_congr_left hitems, List.map_id']
    | node fields =>
      rw [sorted_node, SortedAux.sortedBy_eq_self (hself fields rfl),
        map_entries_eq_self fun v hv => ih v hv (hcontents v hv)]
    | _ => rfl

end Value

/-- A JSON value whose names ascend in every object is sorted. -/
theorem Json.sorted_eq_self {j : Json} (h : j.IsSorted) : j.sorted = j := by
  induction j using contents_induction with
  | step j ih =>
    obtain ⟨hself, hcontents⟩ := everywhere_iff.mp h
    cases j with
    | array items =>
      have hitems : ∀ j ∈ items, j.sorted = j := fun j hj => ih j hj (hcontents j hj)
      rw [sorted_array, List.map_congr_left hitems, List.map_id']
    | object members =>
      rw [sorted_object, SortedAux.sortedBy_eq_self (hself members rfl),
        map_entries_eq_self fun j hj => ih j hj (hcontents j hj)]
    | _ => rfl

/-! ## From field values to JSON and back -/

namespace Value

/-- A value with finite numbers is read back from JSON with its names in order. -/
theorem ofJson_toJson {v : Value} (h : v.IsFinite) : ofJson v.toJson = some v.sorted := by
  induction v using contents_induction with
  | step v ih =>
    obtain ⟨hself, hcontents⟩ := everywhere_iff.mp h
    cases v with
    | float x =>
      rw [toJson, Json.ofFloat, dif_pos (hself x rfl)]
      rfl
    | list items =>
      have hitems : ∀ v ∈ items, (ofJson ∘ toJson) v = (some ∘ sorted) v := fun v hv => ih v hv (hcontents v hv)
      rw [toJson_list, ofJson_array, List.filterMap_map, List.filterMap_congr hitems, List.filterMap_eq_map,
        sorted_list]
    | node fields =>
      have hfields : ∀ m ∈ sortedBy Prod.fst fields, (ofJson m.2.toJson).map (m.1, ·) = some (m.1, m.2.sorted) := by
        intro m hm
        have hm : m.2 ∈ contents (.node fields) := snd_mem_of_mem_sortedBy hm
        rw [ih _ hm (hcontents _ hm), Option.map_some]
      have hmembers : ((sortedBy Prod.fst fields).map fun m => (m.1, m.2.toJson)).Pairwise (·.1 < ·.1) :=
        List.pairwise_map.mpr SortedAux.pairwise_sortedBy
      rw [toJson_node, ofJson_object, SortedAux.sortedBy_eq_self hmembers, List.filterMap_map, sorted_node]
      exact congrArg (fun fields => some (node fields))
        ((List.filterMap_congr hfields).trans (congrFun List.filterMap_eq_map _))
    | _ => rfl

/-- No null stands in the JSON of a value with finite numbers. -/
theorem isNullFree_toJson {v : Value} (h : v.IsFinite) : v.toJson.IsNullFree := by
  induction v using contents_induction with
  | step v ih =>
    obtain ⟨hself, hcontents⟩ := everywhere_iff.mp h
    refine everywhere_iff.mpr ?_
    cases v with
    | float x =>
      rw [toJson, Json.ofFloat, dif_pos (hself x rfl)]
      exact ⟨Json.noConfusion, fun _ hj => absurd hj List.not_mem_nil⟩
    | list items =>
      rw [toJson_list]
      refine ⟨Json.noConfusion, fun j hj => ?_⟩
      obtain ⟨v, hv, rfl⟩ := List.mem_map.mp hj
      exact ih v hv (hcontents v hv)
    | node fields =>
      rw [toJson_node]
      refine ⟨Json.noConfusion, fun j hj => ?_⟩
      obtain ⟨member, hmember, rfl⟩ := List.mem_map.mp hj
      obtain ⟨m, hm, rfl⟩ := List.mem_map.mp hmember
      have hm : m.2 ∈ contents (.node fields) := snd_mem_of_mem_sortedBy hm
      exact ih _ hm (hcontents _ hm)
    | _ => exact ⟨Json.noConfusion, fun _ hj => absurd hj List.not_mem_nil⟩

end Value

/-! ## From JSON to field values and back -/

namespace Json

/-- The number, where an integer above the signed range is the floating point number nearest to it. -/
def Number.signed : Number → Number
  | .large n above => .real (Float.ofNat n.toNat) (FloatRange.isFinite_ofNat (by omega) n.toNat_lt)
  | n => n

mutual

/-- The value without the nulls in it, and with floating point numbers for the integers above the signed range; nothing
for null itself. -/
def withoutNulls? : Json → Option Json
  | .null => none
  | .bool b => some (.bool b)
  | .number n => some (.number n.signed)
  | .string s => some (.string s)
  | .array items => some (.array (withoutNullItems items))
  | .object members => some (.object (withoutNullMembers members))

/-- The items of an array that are not null, each without the nulls in it. -/
def withoutNullItems : List Json → List Json
  | [] => []
  | j :: rest =>
    match withoutNulls? j with
    | some kept => kept :: withoutNullItems rest
    | none => withoutNullItems rest

/-- The members of an object that are not null, each without the nulls in it. -/
def withoutNullMembers : List (String × Json) → List (String × Json)
  | [] => []
  | (name, j) :: rest =>
    match withoutNulls? j with
    | some kept => (name, kept) :: withoutNullMembers rest
    | none => withoutNullMembers rest

end

/-- An array without nulls. -/
theorem withoutNulls?_array (items : List Json) :
    withoutNulls? (.array items) = some (.array (items.filterMap withoutNulls?)) := by
  suffices withoutNullItems items = items.filterMap withoutNulls? by rw [withoutNulls?, this]
  induction items with
  | nil => rfl
  | cons j rest ih =>
    rw [withoutNullItems, List.filterMap_cons, ih]
    cases withoutNulls? j <;> rfl

/-- An object without nulls. -/
theorem withoutNulls?_object (members : List (String × Json)) :
    withoutNulls? (.object members) = some (.object (members.filterMap fun m => m.2.withoutNulls?.map (m.1, ·))) := by
  suffices withoutNullMembers members = members.filterMap fun m => m.2.withoutNulls?.map (m.1, ·) by
    rw [withoutNulls?, this]
  induction members with
  | nil => rfl
  | cons m rest ih =>
    rw [withoutNullMembers, List.filterMap_cons, ih]
    cases withoutNulls? m.2 <;> rfl

end Json

namespace Value

theorem toJson_ofNumber (n : Json.Number) : toJson (ofNumber n) = .number n.signed := by
  cases n with
  | int n => rfl
  | large n above => exact dif_pos _
  | real x finite => exact dif_pos finite

theorem ofJson_eq_none_iff {j : Json} : ofJson j = none ↔ j = .null := by
  cases j <;> simp [ofJson]

/-- The names ascend in what is read from the members of an object. -/
theorem pairwise_ofMembers (members : List (String × Json)) :
    ((sortedBy Prod.fst members).filterMap fun m => (ofJson m.2).map (m.1, ·)).Pairwise (·.1 < ·.1) := by
  refine List.Pairwise.filterMap _ ?_ SortedAux.pairwise_sortedBy
  intro m n hlt field hfield other hother
  obtain ⟨v, -, rfl⟩ := Option.map_eq_some_iff.mp hfield
  obtain ⟨w, -, rfl⟩ := Option.map_eq_some_iff.mp hother
  exact hlt

/-- A JSON value that is read and written again is the value without its nulls, with the names in order. -/
theorem map_toJson_ofJson (j : Json) : (ofJson j).map toJson = j.sorted.withoutNulls? := by
  induction j using Json.contents_induction with
  | step j ih =>
    cases j with
    | number n => exact congrArg some (toJson_ofNumber n)
    | array items =>
      have hitems : ∀ j ∈ items, (ofJson j).map toJson = (Json.withoutNulls? ∘ Json.sorted) j := ih
      rw [ofJson_array, Option.map_some, toJson_list, List.map_filterMap, List.filterMap_congr hitems,
        Json.sorted_array, Json.withoutNulls?_array, List.filterMap_map]
    | object members =>
      have hmembers : ∀ m ∈ sortedBy Prod.fst members,
        ((ofJson m.2).map (m.1, ·)).map (fun field => (field.1, field.2.toJson)) =
          m.2.sorted.withoutNulls?.map (m.1, ·) := by
        intro m hm
        rw [← ih m.2 (snd_mem_of_mem_sortedBy hm), Option.map_map, Option.map_map]
        rfl
      rw [ofJson_object, Option.map_some, toJson_node, SortedAux.sortedBy_eq_self (pairwise_ofMembers members),
        List.map_filterMap,
        List.filterMap_congr hmembers, Json.sorted_object, Json.withoutNulls?_object, List.filterMap_map]
      rfl
    | _ => rfl

/-- What a value holds that is read from JSON is read from something that the JSON value holds. -/
theorem exists_of_mem_contents_ofJson {j : Json} {v content : Value} (h : ofJson j = some v)
    (hcontent : content ∈ v.contents) : ∃ k ∈ j.contents, ofJson k = some content := by
  cases j with
  | null => exact absurd h (Option.some_ne_none v).symm
  | number n =>
    cases n <;> (cases h; exact absurd hcontent List.not_mem_nil)
  | array items =>
    rw [ofJson_array] at h
    cases h
    exact List.mem_filterMap.mp hcontent
  | object members =>
    rw [ofJson_object] at h
    cases h
    obtain ⟨field, hfield, rfl⟩ := List.mem_map.mp hcontent
    obtain ⟨m, hm, hread⟩ := List.mem_filterMap.mp hfield
    obtain ⟨v, hv, rfl⟩ := Option.map_eq_some_iff.mp hread
    exact ⟨m.2, snd_mem_of_mem_sortedBy hm, hv⟩
  | _ =>
    cases h
    exact absurd hcontent List.not_mem_nil

/-- What is true of every value that is read from JSON is true everywhere in it. -/
theorem everywhere_of_ofJson {holds : Value → Prop} (hself : ∀ j v, ofJson j = some v → holds v) {j : Json} {v : Value}
    (h : ofJson j = some v) : Everywhere contents holds v := by
  induction j using Json.contents_induction generalizing v with
  | step j ih =>
    refine everywhere_iff.mpr ⟨hself j v h, fun content hcontent => ?_⟩
    obtain ⟨k, hk, hread⟩ := exists_of_mem_contents_ofJson h hcontent
    exact ih k hk hread

/-- The numbers that are read from JSON are finite. -/
theorem isFinite_of_ofJson {j : Json} {v : Value} (h : ofJson j = some v) : v.IsFinite := by
  refine everywhere_of_ofJson (fun j v h x hx => ?_) h
  subst hx
  cases j with
  | number n =>
    cases n with
    | int n => cases h
    | large n above =>
      cases h
      exact FloatRange.isFinite_ofNat (by omega) n.toNat_lt
    | real x finite =>
      cases h
      exact finite
  | _ => cases h

/-- The names of what is read from JSON are in order. -/
theorem isSorted_of_ofJson {j : Json} {v : Value} (h : ofJson j = some v) : v.IsSorted := by
  refine everywhere_of_ofJson (fun j v h fields hv => ?_) h
  subst hv
  cases j with
  | number n => cases n <;> cases h
  | object members =>
    rw [ofJson_object] at h
    cases h
    exact pairwise_ofMembers members
  | _ => cases h

/-! ## Both ways -/

/-- Field values and JSON agree:
1. A value with finite numbers only is read back from its JSON with its names in order, at every depth. Where no name
   comes twice in a group this brings the names into another order and changes nothing else, and where they are in
   order already it is the value itself.
2. Nothing is read from null, and from null alone. What is read from any other JSON value is written again as that
   value without the nulls in it, at every depth, with floating point numbers for the integers above the signed range,
   and with the names in order, as they are where a dictionary keeps them so. No null stands in it, and it is read as
   the same value again. -/
theorem values_agree_with_json :
    (∀ v : Value, v.IsFinite → ofJson v.toJson = some v.sorted ∧ (v.HasDistinctNames → v.Reorders v.sorted) ∧
      (v.IsSorted → v.sorted = v)) ∧
    (∀ j : Json, (ofJson j = none ↔ j = .null) ∧ (ofJson j).map toJson = j.sorted.withoutNulls? ∧
      (j.IsSorted → j.sorted = j) ∧
      ∀ v, ofJson j = some v → v.toJson.IsNullFree ∧ ofJson v.toJson = some v) := by
  refine ⟨fun v h => ⟨ofJson_toJson h, reorders_sorted, sorted_eq_self⟩,
    fun j => ⟨ofJson_eq_none_iff, map_toJson_ofJson j, Json.sorted_eq_self,
      fun v h => ⟨isNullFree_toJson (isFinite_of_ofJson h), ?_⟩⟩⟩
  rw [ofJson_toJson (isFinite_of_ofJson h), sorted_eq_self (isSorted_of_ofJson h)]

end Value

namespace Sample

/-- Named values that are not in order, with a floating point number inside. -/
def unordered : Value := .node [("tags", .list [.float (Float.ofNat (2 ^ 53))]), ("name", .bool true)]

/-- A dictionary with nulls in it, and with an integer above the signed range. -/
def nullable : Json := .object [("name", .null),
    ("tags", .array [.null, .number (.large 0x8000000000000000 (by decide))])]

/-- The value comes back in order, and the dictionary without its nulls. -/
theorem unordered_and_nullable_convert :
    Value.ofJson unordered.toJson =
      some (.node [("name", .bool true), ("tags", .list [.float (Float.ofNat (2 ^ 53))])]) ∧
    unordered.Reorders unordered.sorted ∧ nullable.sorted = nullable ∧
    (Value.ofJson nullable).map Value.toJson =
      some (.object [("tags", .array
        [.number (.real (Float.ofNat (2 ^ 63)) (FloatRange.isFinite_ofNat (by decide) (by decide)))])]) := by
  obtain ⟨hvalues, hjson⟩ := Value.values_agree_with_json
  have hfinite : unordered.IsFinite := by
    refine everywhere_iff.mpr
      ⟨nofun, List.forall_mem_cons.mpr ⟨?_, List.forall_mem_singleton.mpr (everywhere_iff.mpr ⟨nofun, nofun⟩)⟩⟩
    refine everywhere_iff.mpr ⟨nofun, List.forall_mem_singleton.mpr (everywhere_iff.mpr ⟨?_, nofun⟩)⟩
    intro x hx
    rw [← Value.float.inj hx]
    exact FloatRange.isFinite_ofNat (by decide) (by decide)
  have hdistinct : unordered.HasDistinctNames := by
    refine everywhere_iff.mpr
      ⟨?_, List.forall_mem_cons.mpr ⟨?_, List.forall_mem_singleton.mpr (everywhere_iff.mpr ⟨nofun, nofun⟩)⟩⟩
    · rintro fields ⟨⟩
      decide
    · exact everywhere_iff.mpr ⟨nofun, List.forall_mem_singleton.mpr (everywhere_iff.mpr ⟨nofun, nofun⟩)⟩
  have hsorted : nullable.IsSorted := by
    refine everywhere_iff.mpr ⟨?_, List.forall_mem_cons.mpr ⟨everywhere_iff.mpr ⟨nofun, nofun⟩,
      List.forall_mem_singleton.mpr ?_⟩⟩
    · rintro members ⟨⟩
      decide
    · refine everywhere_iff.mpr ⟨nofun, List.forall_mem_cons.mpr ⟨everywhere_iff.mpr ⟨nofun, nofun⟩,
        List.forall_mem_singleton.mpr ?_⟩⟩
      exact everywhere_iff.mpr ⟨nofun, nofun⟩
  obtain ⟨hread, hreorders, -⟩ := hvalues unordered hfinite
  obtain ⟨-, hwritten, hsame, -⟩ := hjson nullable
  refine ⟨hread.trans ?_, hreorders hdistinct, hsame hsorted, ?_⟩
  · rfl
  · rw [hwritten, hsame hsorted]
    rfl

end Sample

end PropertyGraph
