/-!
# Lists kept in strictly ascending order of a key

A table, a continuation key and the members of an object are all finite maps that are read in key order. Each of them
is a list in which the keys strictly ascend, so that a map has one written form and equality of maps is equality of
lists. This module holds the one operation they share, insertion, and what it does to membership, to order and to
look-up.
-/

namespace PropertyGraph

/-- The list with `a` at its place in key order; an element with the key of `a` is replaced. -/
def insertSorted {α κ : Type} [LT κ] [DecidableLT κ] (key : α → κ) (a : α) : List α → List α
  | [] => [a]
  | b :: rest =>
    if key a < key b then a :: b :: rest
    else if key b < key a then b :: insertSorted key a rest
    else a :: rest

/-- The elements in strictly ascending key order; of several with one key the last is kept. -/
def sortedBy {α κ : Type} [LT κ] [DecidableLT κ] (key : α → κ) (as : List α) : List α :=
  as.foldl (fun sorted a => insertSorted key a sorted) []

namespace SortedAux

variable {α κ : Type} [LT κ] [DecidableLT κ] {key : α → κ}

/-- What an insertion holds is the inserted element or was there before. -/
theorem mem_of_mem_insertSorted {a b : α} {l : List α} (h : b ∈ insertSorted key a l) : b = a ∨ b ∈ l := by
  induction l with
  | nil => simpa [insertSorted] using h
  | cons c rest ih =>
    unfold insertSorted at h
    split at h
    · simpa using h
    · split at h
      · rcases List.mem_cons.mp h with rfl | h
        · exact Or.inr (List.mem_cons_self ..)
        · exact (ih h).imp id (List.mem_cons_of_mem _)
      · rcases List.mem_cons.mp h with rfl | h
        · exact Or.inl rfl
        · exact Or.inr (List.mem_cons_of_mem _ h)

/-- What a sorted list holds was in the list it was made from. -/
theorem mem_of_mem_sortedBy {b : α} {as : List α} (h : b ∈ sortedBy key as) : b ∈ as := by
  suffices ∀ (as sorted : List α), b ∈ as.foldl (fun sorted a => insertSorted key a sorted) sorted →
    b ∈ sorted ∨ b ∈ as by
    rcases this as [] h with h | h
    · simp at h
    · exact h
  intro as
  induction as with
  | nil => exact fun _ h => Or.inl h
  | cons a rest ih =>
    intro sorted h
    rcases ih _ h with h | h
    · rcases mem_of_mem_insertSorted h with rfl | h
      · exact Or.inr (List.mem_cons_self ..)
      · exact Or.inl h
    · exact Or.inr (List.mem_cons_of_mem _ h)

variable [LE κ] [Std.IsLinearOrder κ] [Std.LawfulOrderLT κ]

omit [DecidableLT κ] in
theorem eq_of_not_lt {a b : κ} (hab : ¬ a < b) (hba : ¬ b < a) : a = b :=
  Std.le_antisymm (Std.not_lt.mp hba) (Std.not_lt.mp hab)

/-- Insertion keeps the keys strictly ascending. -/
theorem pairwise_insertSorted {a : α} {l : List α} (h : l.Pairwise (key · < key ·)) :
    (insertSorted key a l).Pairwise (key · < key ·) := by
  induction l with
  | nil => exact List.pairwise_singleton ..
  | cons b rest ih =>
    have hb := List.pairwise_cons.mp h
    unfold insertSorted
    split
    next hab =>
      refine List.pairwise_cons.mpr ⟨fun c hc => ?_, h⟩
      rcases List.mem_cons.mp hc with rfl | hc
      · exact hab
      · exact Std.lt_trans hab (hb.1 c hc)
    next hab =>
      split
      next hba =>
        refine List.pairwise_cons.mpr ⟨fun c hc => ?_, ih hb.2⟩
        rcases mem_of_mem_insertSorted hc with rfl | hc
        · exact hba
        · exact hb.1 c hc
      next hba =>
        have heq : key a = key b := eq_of_not_lt hab hba
        exact List.pairwise_cons.mpr ⟨fun c hc => heq ▸ hb.1 c hc, hb.2⟩

/-- A list sorted by a key is strictly ascending in it. -/
theorem pairwise_sortedBy {as : List α} : (sortedBy key as).Pairwise (key · < key ·) := by
  suffices ∀ (as sorted : List α), sorted.Pairwise (key · < key ·) →
      (as.foldl (fun sorted a => insertSorted key a sorted) sorted).Pairwise (key · < key ·) from
    this as [] List.Pairwise.nil
  intro as
  induction as with
  | nil => exact fun _ h => h
  | cons a rest ih => exact fun sorted h => ih _ (pairwise_insertSorted h)

end SortedAux

end PropertyGraph
