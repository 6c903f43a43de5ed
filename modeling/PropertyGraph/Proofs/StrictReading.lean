import Mathlib.Data.List.Induction
import Mathlib.Data.Option.Basic
import PropertyGraph.Proofs.Codec
import PropertyGraph.Proofs.Conversion

/-!
# Strict reading

A strict reader tries the kinds of values in turn and takes the first that a JSON value can be taken for
(`Value.readInTurn?`), at every depth. There is one such reader only, and it is `Value.read?` (`Value.eq_read?_iff`):
an integer of the signed range is never read as a floating point number, although it could be, and any other number
always is. The strict reader takes a JSON value where no null stands in it, and what it reads is what the lenient
reader reads, up to the order of names; what a value is written as is read as that value (`Value.readings_agree`).
-/

namespace PropertyGraph

/-! ## Entries written one after the other -/

namespace Assoc

variable {α : Type}

/-- What stands among the entries after a name was written: the new entry, and those of other names. -/
theorem mem_insert_iff {name : String} {content : α} {entries : Assoc α} (h : (names entries).Nodup)
    {entry : String × α} :
    entry ∈ insert name content entries ↔ entry = (name, content) ∨ (entry ∈ entries ∧ entry.1 ≠ name) := by
  induction entries with
  | nil => simp [insert]
  | cons first rest ih =>
    obtain ⟨other, old⟩ := first
    obtain ⟨hnew, hrest⟩ := List.nodup_cons.mp h
    rw [insert]
    split
    next hname =>
      subst hname
      have hne : ∀ entry ∈ rest, entry.1 ≠ other := by
        intro entry hentry heq
        have hmem : entry.1 ∈ rest.map Prod.fst := List.mem_map_of_mem hentry
        exact hnew (heq ▸ hmem)
      rw [List.mem_cons, List.mem_cons]
      constructor
      · rintro (rfl | hentry)
        · exact Or.inl rfl
        · exact Or.inr ⟨Or.inr hentry, hne entry hentry⟩
      · rintro (rfl | ⟨rfl | hentry, hother⟩)
        · exact Or.inl rfl
        · exact absurd rfl hother
        · exact Or.inr hentry
    next hname =>
      rw [List.mem_cons, ih hrest, List.mem_cons]
      constructor
      · rintro (rfl | rfl | ⟨hentry, hother⟩)
        · exact Or.inr ⟨Or.inl rfl, hname⟩
        · exact Or.inl rfl
        · exact Or.inr ⟨Or.inr hentry, hother⟩
      · rintro (rfl | ⟨rfl | hentry, hother⟩)
        · exact Or.inr (Or.inl rfl)
        · exact Or.inl rfl
        · exact Or.inr (Or.inr ⟨hentry, hother⟩)

theorem ofList_concat (entries : List (String × α)) (entry : String × α) :
    ofList (entries ++ [entry]) = insert entry.1 entry.2 (ofList entries) := by
  rw [ofList, List.foldl_append]
  rfl

theorem nodup_names_ofList (entries : List (String × α)) : (names (ofList entries)).Nodup := by
  induction entries using List.reverseRecOn with
  | nil => exact List.nodup_nil
  | append_singleton rest entry ih =>
    rw [ofList_concat]
    exact nodup_names_insert ih

/-- What stands among entries that are written one after the other is one of them. -/
theorem mem_of_mem_ofList {entries : List (String × α)} {entry : String × α} (h : entry ∈ ofList entries) :
    entry ∈ entries := by
  induction entries using List.reverseRecOn with
  | nil => exact h
  | append_singleton rest last ih =>
    rw [ofList_concat, mem_insert_iff (nodup_names_ofList rest)] at h
    rw [List.mem_append, List.mem_singleton]
    rcases h with rfl | ⟨h, -⟩
    · exact Or.inr rfl
    · exact Or.inl (ih h)

/-- In the order of the names it does not show which place a repeated name has: the last content counts. -/
theorem sortedBy_ofList (entries : List (String × α)) :
    sortedBy Prod.fst (ofList entries) = sortedBy Prod.fst entries := by
  induction entries using List.reverseRecOn with
  | nil => rfl
  | append_singleton rest last ih =>
    have hsorted : sortedBy Prod.fst (rest ++ [last]) = insertSorted Prod.fst last (sortedBy Prod.fst rest) := by
      rw [sortedBy, List.foldl_append]
      rfl
    have hnodup := nodup_names_ofList rest
    rw [hsorted, ← ih, ofList_concat]
    refine SortedAux.eq_of_ascending SortedAux.pairwise_sortedBy
      (SortedAux.pairwise_insertSorted SortedAux.pairwise_sortedBy) ?_
    intro entry
    rw [(SortedAux.sortedBy_perm (nodup_names_insert hnodup)).mem_iff, mem_insert_iff hnodup,
      SortedAux.mem_insertSorted_iff SortedAux.pairwise_sortedBy, (SortedAux.sortedBy_perm hnodup).mem_iff]

/-- Entries of distinct names are written as they are. -/
theorem ofList_eq_self {entries : Assoc α} (h : (names entries).Nodup) : ofList entries = entries := by
  induction entries using List.reverseRecOn with
  | nil => rfl
  | append_singleton rest last ih =>
    rw [names, List.map_append, List.nodup_append] at h
    obtain ⟨hrest, -, hdisjoint⟩ := h
    have hnew : last.1 ∉ names rest := fun hmem => hdisjoint _ hmem last.1 (List.mem_singleton.mpr rfl) rfl
    rw [ofList_concat, ih hrest, insert_of_not_mem hnew]

end Assoc

/-! ## Reading one by one -/

section One

variable {α β : Type} {read : α → Option β}

/-- All of a list can be read where each of it is read as what stands in its place. -/
theorem mapM_eq_some_iff {as : List α} {bs : List β} : as.mapM read = some bs ↔ as.map read = bs.map some := by
  induction as generalizing bs with
  | nil => cases bs <;> simp
  | cons a rest ih =>
    simp only [List.mapM_cons, Option.bind_eq_bind, Option.bind_eq_some_iff, Option.pure_def, Option.some.injEq,
      List.map_cons]
    constructor
    · rintro ⟨b, hb, others, hothers, rfl⟩
      rw [List.map_cons, hb, ih.mp hothers]
    · intro h
      cases bs with
      | nil => cases h
      | cons b others =>
        obtain ⟨hb, hothers⟩ := List.cons.inj h
        exact ⟨b, hb, others, ih.mpr hothers, rfl⟩

theorem mapM_map_eq_some {write : β → α} {bs : List β} (h : ∀ b ∈ bs, read (write b) = some b) :
    (bs.map write).mapM read = some bs := by
  rw [mapM_eq_some_iff, List.map_map]
  exact List.map_congr_left h

/-- All of a list can be read where each of it can be. -/
theorem isSome_mapM_iff {as : List α} : (as.mapM read).isSome = true ↔ ∀ a ∈ as, (read a).isSome = true := by
  induction as with
  | nil => simp
  | cons a rest ih =>
    rw [List.mapM_cons, List.forall_mem_cons, ← ih]
    cases read a with
    | none => simp
    | some b => cases rest.mapM read <;> simp

/-- What is read of a list, changed one by one. -/
theorem filterMap_of_map_eq {γ : Type} {change : β → γ} {as : List α} {bs : List β} (h : as.map read = bs.map some) :
    as.filterMap (fun a => (read a).map change) = bs.map change := by
  have hfirst : as.filterMap (fun a => (read a).map change) = (as.map read).filterMap (Option.map change) := by
    rw [List.filterMap_map]
    rfl
  rw [hfirst, h, List.filterMap_map]
  exact congrFun List.filterMap_eq_map bs

/-- Where all of a list can be read, each of it can be. -/
theorem exists_of_mapM_eq_some {as : List α} {bs : List β} (h : as.mapM read = some bs) :
    ∀ a ∈ as, ∃ b, read a = some b := by
  have hsome : (as.mapM read).isSome = true := by rw [h, Option.isSome_some]
  exact fun a ha => Option.isSome_iff_exists.mp (isSome_mapM_iff.mp hsome a ha)

/-- A list is read in the same way by readers that agree on each of it. -/
theorem mapM_congr {read' : α → Option β} {as : List α} (h : ∀ a ∈ as, read a = read' a) :
    as.mapM read = as.mapM read' := by
  induction as with
  | nil => rfl
  | cons a rest ih =>
    obtain ⟨hfirst, hrest⟩ := List.forall_mem_cons.mp h
    rw [List.mapM_cons, List.mapM_cons, hfirst, ih hrest]

end One

/-! ## The kinds in turn -/

/-- A number as a floating point number, of an integer the nearest one. -/
def Json.Number.toFloat : Number → Float
  | .int n => Float.ofInt n.toInt
  | .large n _ => Float.ofNat n.toNat
  | .real x _ => x

/-- The kinds of values in the order in which a reader tries them. -/
def Kind.inTurn : List Kind := [.bool, .int, .float, .string, .list, .node]

/-- A JSON value as a value of a kind, where it can be taken for one: an integer of the signed range for a floating
point number too. All that a list or a group holds must be readable. -/
def Kind.take? (read : Json → Option Value) : Kind → Json → Option Value
  | .bool, .bool b => some (.bool b)
  | .int, .number (.int n) => some (.int n)
  | .float, .number n => some (.float n.toFloat)
  | .string, .string s => some (.string s)
  | .list, .array items => (items.mapM read).map .list
  | .node, .object members => (members.mapM fun m => (read m.2).map (m.1, ·)).map fun fields =>
    .node (Assoc.ofList fields)
  | _, _ => none

namespace Value

/-- A JSON value as a value of the first kind that it can be taken for. -/
def readInTurn? (read : Json → Option Value) (j : Json) : Option Value :=
  Kind.inTurn.findSome? fun kind => kind.take? read j

/-- A strict reader reads an array item by item. -/
theorem read?_array (items : List Json) : read? (.array items) = (items.mapM read?).map .list := by
  suffices readItems? items = items.mapM read? by rw [read?, this]
  induction items with
  | nil => rfl
  | cons j rest ih =>
    rw [readItems?, List.mapM_cons, ih]
    cases read? j with
    | none => rfl
    | some v => cases rest.mapM read? <;> rfl

/-- A strict reader reads an object member by member. -/
theorem read?_object (members : List (String × Json)) :
    read? (.object members) = (members.mapM fun m => (read? m.2).map (m.1, ·)).map fun fields =>
      .node (Assoc.ofList fields) := by
  suffices readMembers? members = members.mapM fun m => (read? m.2).map (m.1, ·) by rw [read?, this]
  induction members with
  | nil => rfl
  | cons m rest ih =>
    rw [readMembers?, List.mapM_cons, ih]
    cases read? m.2 with
    | none => rfl
    | some v => cases rest.mapM fun m => (read? m.2).map (m.1, ·) <;> rfl

/-- Readers that agree on what a JSON value holds take it for the same value of a kind. -/
theorem take?_congr {read read' : Json → Option Value} {j : Json}
    (h : ∀ content ∈ j.contents, read content = read' content) (kind : Kind) :
    kind.take? read j = kind.take? read' j := by
  cases j with
  | array items =>
    have hitems : items.mapM read = items.mapM read' := mapM_congr h
    cases kind <;> simp only [Kind.take?, hitems]
  | object members =>
    have hmembers : (members.mapM fun m => (read m.2).map (m.1, ·)) =
        members.mapM fun m => (read' m.2).map (m.1, ·) := by
      refine mapM_congr fun m hm => ?_
      rw [h m.2 (List.mem_map_of_mem hm)]
    cases kind <;> simp only [Kind.take?, hmembers]
  | number n => cases n <;> cases kind <;> rfl
  | _ => cases kind <;> rfl

/-- The strict reader takes the first kind in turn. -/
theorem read?_eq_readInTurn? (j : Json) : read? j = readInTurn? read? j := by
  cases j with
  | number n => cases n <;> rfl
  | array items =>
    rw [read?_array]
    simp only [readInTurn?, Kind.inTurn, List.findSome?, Kind.take?]
    cases items.mapM read? <;> rfl
  | object members =>
    rw [read?_object]
    simp only [readInTurn?, Kind.inTurn, List.findSome?, Kind.take?]
    cases members.mapM fun m => (read? m.2).map (m.1, ·) <;> rfl
  | _ => rfl

/-- There is only one reader that takes the first kind in turn, at every depth. -/
theorem eq_read?_iff {read : Json → Option Value} : read = read? ↔ ∀ j, read j = readInTurn? read j := by
  constructor
  · rintro rfl
    exact read?_eq_readInTurn?
  · intro h
    funext j
    induction j using Json.contents_induction with
    | step j ih =>
      rw [h j, read?_eq_readInTurn? j, readInTurn?, readInTurn?]
      exact congrArg (fun take => Kind.inTurn.findSome? take) (funext (take?_congr ih))

/-! ## Strict and lenient reading -/

/-- A strict reader takes a JSON value where no null stands in it. -/
theorem isSome_read?_iff (j : Json) : (read? j).isSome = true ↔ j.IsNullFree := by
  induction j using Json.contents_induction with
  | step j ih =>
    rw [Json.IsNullFree, everywhere_iff]
    cases j with
    | null => simp [read?]
    | array items =>
      have hitems : (items.mapM read?).isSome = true ↔ ∀ j ∈ items, j.IsNullFree := by
        rw [isSome_mapM_iff]
        exact forall₂_congr ih
      rw [read?_array, Option.isSome_map, hitems]
      exact (and_iff_right Json.noConfusion).symm
    | object members =>
      have hmembers : (members.mapM fun m => (read? m.2).map (m.1, ·)).isSome = true ↔
          ∀ j ∈ members.map Prod.snd, j.IsNullFree := by
        rw [isSome_mapM_iff, List.forall_mem_map]
        refine forall₂_congr fun m hm => ?_
        rw [Option.isSome_map]
        exact ih m.2 (List.mem_map_of_mem hm)
      rw [read?_object, Option.isSome_map, hmembers]
      exact (and_iff_right Json.noConfusion).symm
    | _ => exact ⟨fun _ => ⟨Json.noConfusion, fun _ h => absurd h List.not_mem_nil⟩, fun _ => rfl⟩

/-- What a strict reader reads, a lenient one reads with the names in order. -/
theorem ofJson_of_read? {j : Json} {v : Value} (h : read? j = some v) : ofJson j = some v.sorted := by
  induction j using Json.contents_induction generalizing v with
  | step j ih =>
    cases j with
    | null => cases h
    | number n => cases n <;> (cases h; rfl)
    | array items =>
      rw [read?_array, Option.map_eq_some_iff] at h
      obtain ⟨values, hvalues, rfl⟩ := h
      have hitems : ∀ j ∈ items, ofJson j = (read? j).map sorted := by
        intro j hj
        obtain ⟨w, hw⟩ := exists_of_mapM_eq_some hvalues j hj
        rw [hw, ih j hj hw, Option.map_some]
      rw [ofJson_array, sorted_list, List.filterMap_congr hitems, filterMap_of_map_eq (mapM_eq_some_iff.mp hvalues)]
    | object members =>
      rw [read?_object, Option.map_eq_some_iff] at h
      obtain ⟨fields, hfields, rfl⟩ := h
      have hread : ∀ m ∈ members, read? m.2 = some ((read? m.2).getD default) := by
        intro m hm
        obtain ⟨field, hfield⟩ := exists_of_mapM_eq_some hfields m hm
        obtain ⟨w, hw, -⟩ := Option.map_eq_some_iff.mp hfield
        rw [hw, Option.getD_some]
      obtain rfl : members.map (fun m => (m.1, (read? m.2).getD default)) = fields := by
        refine (List.map_injective_iff.mpr (Option.some_injective _)) ?_
        rw [← mapM_eq_some_iff.mp hfields, List.map_map]
        refine List.map_congr_left fun m hm => ?_
        rw [hread m hm]
        rfl
      have hmembers : ∀ m ∈ sortedBy Prod.fst members,
          (ofJson m.2).map (m.1, ·) = some (m.1, ((read? m.2).getD default).sorted) := by
        intro m hm
        have hm := SortedAux.mem_of_mem_sortedBy hm
        rw [ih m.2 (List.mem_map_of_mem hm) (hread m hm), Option.map_some]
      rw [ofJson_object, sorted_node, Assoc.sortedBy_ofList,
        SortedAux.sortedBy_map fun _ => rfl, List.filterMap_congr hmembers, List.map_map]
      exact congrArg (fun fields => some (node fields)) (congrFun List.filterMap_eq_map _)
    | _ => cases h; rfl

/-- What a value holds that is read strictly is read from something that the JSON value holds. -/
theorem exists_of_mem_contents_read? {j : Json} {v content : Value} (h : read? j = some v)
    (hcontent : content ∈ v.contents) : ∃ k ∈ j.contents, read? k = some content := by
  cases j with
  | null => cases h
  | number n => cases n <;> (cases h; exact absurd hcontent List.not_mem_nil)
  | array items =>
    rw [read?_array, Option.map_eq_some_iff] at h
    obtain ⟨values, hvalues, rfl⟩ := h
    have hmem : some content ∈ items.map read? := mapM_eq_some_iff.mp hvalues ▸ List.mem_map_of_mem hcontent
    exact List.mem_map.mp hmem
  | object members =>
    rw [read?_object, Option.map_eq_some_iff] at h
    obtain ⟨fields, hfields, rfl⟩ := h
    obtain ⟨field, hfield, rfl⟩ := List.mem_map.mp hcontent
    have hmem : some field ∈ members.map fun m => (read? m.2).map (m.1, ·) :=
      mapM_eq_some_iff.mp hfields ▸ List.mem_map_of_mem (Assoc.mem_of_mem_ofList hfield)
    obtain ⟨m, hm, hread⟩ := List.mem_map.mp hmem
    obtain ⟨w, hw, rfl⟩ := Option.map_eq_some_iff.mp hread
    exact ⟨m.2, List.mem_map_of_mem hm, hw⟩
  | _ =>
    cases h
    exact absurd hcontent List.not_mem_nil

/-- What is true of every value that is read strictly is true everywhere in it. -/
theorem everywhere_of_read? {holds : Value → Prop} (hself : ∀ j v, read? j = some v → holds v) {j : Json} {v : Value}
    (h : read? j = some v) : Everywhere contents holds v := by
  induction j using Json.contents_induction generalizing v with
  | step j ih =>
    refine everywhere_iff.mpr ⟨hself j v h, fun content hcontent => ?_⟩
    obtain ⟨k, hk, hread⟩ := exists_of_mem_contents_read? h hcontent
    exact ih k hk hread

theorem isFinite_of_read? {j : Json} {v : Value} (h : read? j = some v) : v.IsFinite := by
  refine everywhere_of_read? (fun j v h x hx => ?_) h
  subst hx
  exact isFinite_of_ofJson (ofJson_of_read? h) _ .self x rfl

/-- No name comes twice in what is read strictly. -/
theorem hasDistinctNames_of_read? {j : Json} {v : Value} (h : read? j = some v) : v.HasDistinctNames := by
  refine everywhere_of_read? (fun j v h fields hv => ?_) h
  subst hv
  cases j with
  | number n => cases n <;> cases h
  | array items =>
    rw [read?_array, Option.map_eq_some_iff] at h
    obtain ⟨_, -, heq⟩ := h
    cases heq
  | object members =>
    rw [read?_object, Option.map_eq_some_iff] at h
    obtain ⟨_, -, heq⟩ := h
    cases heq
    exact Assoc.nodup_names_ofList _
  | _ => cases h

theorem write_list (items : List Value) : write (.list items) = .array (items.map write) := by
  suffices writeItems items = items.map write by rw [write, this]
  induction items with
  | nil => rfl
  | cons v rest ih => rw [writeItems, List.map_cons, ih]

/-- Named values are written one by one, in their own order. -/
theorem write_node (fields : List (String × Value)) :
    write (.node fields) = .object (fields.map fun m => (m.1, m.2.write)) := by
  suffices writeFields fields = fields.map fun m => (m.1, m.2.write) by rw [write, this]
  induction fields with
  | nil => rfl
  | cons m rest ih => rw [writeFields, List.map_cons, ih]

/-- A value with finite numbers in which no name comes twice in a group is read back as it was written, in the order of
its names. -/
theorem read?_write {v : Value} (hfinite : v.IsFinite) (hdistinct : v.HasDistinctNames) : read? v.write = some v := by
  induction v using contents_induction with
  | step v ih =>
    obtain ⟨hself, hcontents⟩ := everywhere_iff.mp hfinite
    obtain ⟨hnames, hinner⟩ := everywhere_iff.mp hdistinct
    cases v with
    | float x =>
      rw [write, Json.ofFloat, dif_pos (hself x rfl)]
      rfl
    | list items =>
      have hitems : (items.map write).mapM read? = some items :=
        mapM_map_eq_some fun v hv => ih v hv (hcontents v hv) (hinner v hv)
      rw [write_list, read?_array, hitems, Option.map_some]
    | node fields =>
      have hfields : ((fields.map fun m => (m.1, m.2.write)).mapM fun m => (read? m.2).map (m.1, ·)) = some fields := by
        refine mapM_map_eq_some fun m hm => ?_
        have hm : m.2 ∈ contents (.node fields) := List.mem_map_of_mem hm
        rw [ih m.2 hm (hcontents _ hm) (hinner _ hm), Option.map_some]
      rw [write_node, read?_object, hfields, Option.map_some, Assoc.ofList_eq_self (hnames fields rfl)]
    | _ => rfl

/-- The two ways of reading field values agree:
1. The strict reader takes the first kind in turn that a JSON value can be taken for, at every depth, and no other
   reader does.
2. It takes a JSON value where no null stands in it. What it reads, the lenient reader reads with the names in order,
   which is the same up to the order of names.
3. A value with finite numbers in which no name comes twice in a group is read back from what it is written as, with
   its names in their own order. -/
theorem readings_agree :
    (∀ read : Json → Option Value, read = read? ↔ ∀ j, read j = readInTurn? read j) ∧
    (∀ j : Json, ((read? j).isSome = true ↔ j.IsNullFree) ∧
      ∀ v, read? j = some v → ofJson j = some v.sorted ∧ v.Reorders v.sorted) ∧
    (∀ v : Value, v.IsFinite → v.HasDistinctNames → read? v.write = some v) := by
  refine ⟨fun _ => eq_read?_iff, fun j => ⟨isSome_read?_iff j, fun v h => ⟨ofJson_of_read? h, ?_⟩⟩,
    fun _ => read?_write⟩
  exact reorders_sorted (hasDistinctNames_of_read? h)

end Value

namespace Sample

/-- Named values that are not in order, with an integer and a floating point number. -/
def measured : Value := .node [("sizes", .list [.int 5, .float (Float.ofNat (2 ^ 64 - 1))]), ("kept", .bool true)]

/-- The same as a client writes it, with an integer above the signed range. -/
def measuredJson : Json :=
  .object [("sizes", .array [.number (.int 5), .number (.large 0xFFFFFFFFFFFFFFFF (by decide))]), ("kept", .bool true)]

/-- The strict reader keeps the order of the client and the lenient one does not; the value is read back, and a
dictionary with nulls is refused. -/
theorem measured_is_read :
    Value.read? measuredJson = some measured ∧
    Value.ofJson measuredJson =
      some (.node [("kept", .bool true), ("sizes", .list [.int 5, .float (Float.ofNat (2 ^ 64 - 1))])]) ∧
    measured.Reorders measured.sorted ∧ Value.read? measured.write = some measured ∧
    (Value.read? nullable).isSome = false := by
  obtain ⟨-, hjson, hvalues⟩ := Value.readings_agree
  have hread : Value.read? measuredJson = some measured := rfl
  obtain ⟨hlenient, hreorders⟩ := (hjson measuredJson).2 measured hread
  have hnull : ¬ nullable.IsNullFree := by
    have hcontent : Json.null ∈ nullable.contents := List.mem_cons_self ..
    exact fun h => h .null (.inside hcontent .self) rfl
  refine ⟨hread, hlenient.trans rfl, hreorders, hvalues measured (Value.isFinite_of_read? hread)
    (Value.hasDistinctNames_of_read? hread), ?_⟩
  exact Bool.eq_false_iff.mpr (mt (hjson nullable).1.mp hnull)

end Sample

end PropertyGraph
