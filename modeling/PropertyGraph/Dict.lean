import PropertyGraph.Sorted

/-!
# Finite maps from names, in the order of the names

A `Dict` has its entries in strictly ascending order of their names. The order of names is that of their code points,
which is also the byte order of their UTF-8 form. Since the order is part of the type, two maps with the same entries
are equal.
-/

namespace PropertyGraph

/-- A finite map from names, its entries in strictly ascending order of the names. -/
structure Dict (α : Type) where
  /-- The entries, in order. -/
  entries : List (String × α)
  /-- The names strictly ascend. -/
  ascending : entries.Pairwise (·.1 < ·.1)

namespace Dict

variable {α : Type}

/-- The map without entries. -/
def empty : Dict α := ⟨[], List.Pairwise.nil⟩

instance : Inhabited (Dict α) := ⟨empty⟩

/-- What the map has under a name. -/
def get? (d : Dict α) (name : String) : Option α := d.entries.lookup name

/-- The map with `content` under `name`. -/
def insert (name : String) (content : α) (d : Dict α) : Dict α :=
  ⟨insertSorted Prod.fst (name, content) d.entries, SortedAux.pairwise_insertSorted d.ascending⟩

/-- The map of a list of entries; of several under one name the last counts. -/
def ofList (entries : List (String × α)) : Dict α := ⟨sortedBy Prod.fst entries, SortedAux.pairwise_sortedBy⟩

theorem ext_entries {d e : Dict α} (h : d.entries = e.entries) : d = e := by
  cases d
  cases e
  simp only at h
  subst h
  rfl

/-- An insertion into an ordered list of entries changes what stands under its name, and nothing else. -/
theorem lookup_insertSorted (name other : String) (content : α) (entries : List (String × α)) :
    (insertSorted Prod.fst (name, content) entries).lookup other =
      if other = name then some content else entries.lookup other := by
  induction entries with
  | nil =>
    by_cases h : other = name
    · simp [insertSorted, h]
    · simp [insertSorted, h, List.lookup_cons, beq_eq_false_iff_ne.mpr h]
  | cons first rest ih =>
    obtain ⟨n, c⟩ := first
    unfold insertSorted
    split
    · by_cases h : other = name
      · simp [h]
      · rw [List.lookup_cons, beq_eq_false_iff_ne.mpr h, if_neg h]
    next hnot =>
      split
      next hlt =>
        rw [List.lookup_cons, List.lookup_cons, ih]
        by_cases ho : other = n
        · have hn : other ≠ name := fun he => by
            have hlt' : n < name := hlt
            rw [← he, ho] at hlt'
            exact Std.lt_irrefl hlt'
          rw [if_neg hn, if_neg hn]
        · rw [beq_eq_false_iff_ne.mpr ho]
      next hnot' =>
        have heq : name = n := SortedAux.eq_of_not_lt hnot hnot'
        subst heq
        rw [List.lookup_cons, List.lookup_cons]
        by_cases h : other = name
        · simp [h]
        · rw [beq_eq_false_iff_ne.mpr h, if_neg h]

theorem get?_insert (d : Dict α) (name other : String) (content : α) :
    (d.insert name content).get? other = if other = name then some content else d.get? other :=
  lookup_insertSorted name other content d.entries

/-- What a map has of a list of entries: the last content under the name. -/
theorem get?_ofList (entries : List (String × α)) (name : String) :
    (ofList entries).get? name = entries.reverse.lookup name := by
  suffices ∀ (entries sorted : List (String × α)),
      (entries.foldl (fun sorted e => insertSorted Prod.fst e sorted) sorted).lookup name =
        (entries.reverse ++ sorted).lookup name by
    have h := this entries []
    rwa [List.append_nil] at h
  intro entries
  induction entries with
  | nil => exact fun _ => rfl
  | cons e rest ih =>
    obtain ⟨n, c⟩ := e
    intro sorted
    rw [List.foldl_cons, ih, List.reverse_cons, List.append_assoc, List.lookup_append, List.lookup_append,
      lookup_insertSorted]
    by_cases h : name = n
    · simp [h]
    · simp [h, List.lookup_cons, beq_eq_false_iff_ne.mpr h]

instance [DecidableEq α] : DecidableEq (Dict α) := fun d e =>
  if h : d.entries = e.entries then isTrue (ext_entries h) else isFalse fun he => h (he ▸ rfl)

end Dict

end PropertyGraph
