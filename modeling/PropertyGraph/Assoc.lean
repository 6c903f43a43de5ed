/-!
# Named entries in the order in which their names first came

The fields of a node and the attributes of a row keep the order in which their names were first written, and a name has
one entry. An entry list is a plain list of pairs, read by `List.lookup`; this module holds the operations that write
it. `insert` keeps the place of a name that is there already and changes its content, so that it never makes a name
occur twice.
-/

namespace PropertyGraph

/-- Entries under names, in the order in which the names first came. -/
abbrev Assoc (α : Type) := List (String × α)

namespace Assoc

variable {α : Type}

/-- The names of the entries, in order. -/
def names (entries : Assoc α) : List String := entries.map Prod.fst

/-- The entries with `content` under `name`: at the place of the name where it is there, else at the end. -/
def insert (name : String) (content : α) : Assoc α → Assoc α
  | [] => [(name, content)]
  | (other, old) :: rest =>
    if other = name then (name, content) :: rest else (other, old) :: insert name content rest

/-- The entries, each written after the one before it: a repeated name keeps its first place and its last content. -/
def ofList (entries : List (String × α)) : Assoc α :=
  entries.foldl (fun written entry => insert entry.1 entry.2 written) []

/-- A name looked up after it was written has what was written. -/
@[simp] theorem lookup_insert_self (name : String) (content : α) (entries : Assoc α) :
    (insert name content entries).lookup name = some content := by
  induction entries with
  | nil => simp [insert]
  | cons entry rest ih =>
    obtain ⟨other, old⟩ := entry
    by_cases h : other = name
    · simp [insert, h]
    · have h' : (name == other) = false := beq_eq_false_iff_ne.mpr (Ne.symm h)
      simp [insert, h, List.lookup_cons, h', ih]

/-- Writing one name does not change what another has. -/
theorem lookup_insert_of_ne {name other : String} (h : other ≠ name) (content : α) (entries : Assoc α) :
    (insert name content entries).lookup other = entries.lookup other := by
  have hb : (other == name) = false := beq_eq_false_iff_ne.mpr h
  induction entries with
  | nil => simp [insert, List.lookup_cons, hb]
  | cons entry rest ih =>
    obtain ⟨first, old⟩ := entry
    by_cases hf : first = name
    · subst hf
      simp [insert, List.lookup_cons, hb]
    · by_cases ho : other = first
      · subst ho
        simp [insert, hf]
      · have hof : (other == first) = false := beq_eq_false_iff_ne.mpr ho
        simp [insert, hf, List.lookup_cons, hof, ih]

/-- Writing a name adds no other name. -/
theorem mem_names_insert {name other : String} {content : α} {entries : Assoc α} :
    other ∈ names (insert name content entries) ↔ other = name ∨ other ∈ names entries := by
  induction entries with
  | nil => simp [insert, names]
  | cons entry rest ih =>
    obtain ⟨first, old⟩ := entry
    by_cases h : first = name
    · subst h
      simp [insert, names]
    · simp only [names] at ih
      simp only [insert, h, if_false, names, List.map_cons, List.mem_cons, ih]
      constructor
      · rintro (h | h | h)
        · exact Or.inr (Or.inl h)
        · exact Or.inl h
        · exact Or.inr (Or.inr h)
      · rintro (h | h | h)
        · exact Or.inr (Or.inl h)
        · exact Or.inl h
        · exact Or.inr (Or.inr h)

/-- Writing a name keeps the names distinct. -/
theorem nodup_names_insert {name : String} {content : α} {entries : Assoc α} (h : (names entries).Nodup) :
    (names (insert name content entries)).Nodup := by
  induction entries with
  | nil => simp [insert, names]
  | cons entry rest ih =>
    obtain ⟨first, old⟩ := entry
    simp only [names, List.map_cons, List.nodup_cons] at h
    by_cases hf : first = name
    · subst hf
      simpa [insert, names] using h
    · simp only [insert, hf, if_false, names, List.map_cons, List.nodup_cons]
      refine ⟨fun hm => ?_, ih h.2⟩
      rcases mem_names_insert.mp hm with hm | hm
      · exact hf hm
      · exact h.1 hm

end Assoc

end PropertyGraph
