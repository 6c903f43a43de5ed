/-!
# Chunks

A store takes only so many rows or keys in one request, so that a longer list is cut into consecutive chunks of one
size, the last of which may be shorter. One after the other they are the list.
-/

namespace PropertyGraph

/-- The consecutive chunks of a list, each with one element more than `more`, but for the last. -/
def chunksOf {α : Type} (more : Nat) : List α → List (List α)
  | [] => []
  | a :: rest => (a :: rest.take more) :: chunksOf more (rest.drop more)
termination_by items => items.length
decreasing_by simp only [List.length_drop, List.length_cons]; omega

/-- The consecutive chunks of at most so many elements; a size of zero counts as one. -/
def chunks {α : Type} (size : Nat) (items : List α) : List (List α) := chunksOf (size - 1) items

/-- The chunks of a list one after the other are the list. -/
theorem chunksOf_flatten {α : Type} (more : Nat) (items : List α) : (chunksOf more items).flatten = items := by
  induction items using chunksOf.induct more with
  | case1 => simp [chunksOf]
  | case2 a rest ih => rw [chunksOf, List.flatten_cons, ih, List.cons_append, List.take_append_drop]

/-- No chunk has more elements than it may. -/
theorem length_le_of_mem_chunksOf {α : Type} {more : Nat} {items chunk : List α} (h : chunk ∈ chunksOf more items) :
    chunk.length ≤ more + 1 := by
  induction items using chunksOf.induct more with
  | case1 => simp [chunksOf] at h
  | case2 a rest ih =>
    rw [chunksOf] at h
    rcases List.mem_cons.mp h with rfl | h
    · rw [List.length_cons, List.length_take]
      omega
    · exact ih h

/-- No chunk is empty. -/
theorem ne_nil_of_mem_chunksOf {α : Type} {more : Nat} {items chunk : List α} (h : chunk ∈ chunksOf more items) :
    chunk ≠ [] := by
  induction items using chunksOf.induct more with
  | case1 => simp [chunksOf] at h
  | case2 a rest ih =>
    rw [chunksOf] at h
    rcases List.mem_cons.mp h with rfl | h
    · exact List.cons_ne_nil _ _
    · exact ih h

/-- There are as many chunks as full ones have room for all elements. -/
theorem length_chunksOf {α : Type} (more : Nat) (items : List α) :
    (chunksOf more items).length = (items.length + more) / (more + 1) := by
  induction items using chunksOf.induct more with
  | case1 =>
    rw [chunksOf, List.length_nil, List.length_nil, Nat.zero_add, Nat.div_eq_of_lt (Nat.lt_succ_self more)]
  | case2 a rest ih =>
    have hrest : ((rest.drop more).length + more) / (more + 1) = rest.length / (more + 1) := by
      rw [List.length_drop]
      by_cases h : more ≤ rest.length
      · rw [Nat.sub_add_cancel h]
      · rw [Nat.sub_eq_zero_of_le (Nat.le_of_not_le h), Nat.zero_add, Nat.div_eq_of_lt (Nat.lt_succ_self more),
          Nat.div_eq_of_lt (by omega)]
    rw [chunksOf, List.length_cons, ih, hrest, List.length_cons, Nat.add_assoc, Nat.add_comm 1 more,
      Nat.add_div_right _ (Nat.succ_pos more)]

theorem chunks_flatten {α : Type} (size : Nat) (items : List α) : (chunks size items).flatten = items :=
  chunksOf_flatten _ items

/-- Elements that are no more than a chunk are one chunk. -/
theorem chunks_of_le {α : Type} {size : Nat} {items : List α} (hne : items ≠ []) (h : items.length ≤ size) :
    chunks size items = [items] := by
  cases items with
  | nil => exact absurd rfl hne
  | cons a rest =>
    have hrest : rest.length ≤ size - 1 := by
      rw [List.length_cons] at h
      omega
    rw [chunks, chunksOf, List.take_of_length_le hrest, List.drop_of_length_le hrest, chunksOf]

theorem length_chunks {α : Type} {size : Nat} (hs : 0 < size) (items : List α) :
    (chunks size items).length = (items.length + (size - 1)) / size := by
  rw [chunks, length_chunksOf, Nat.sub_add_cancel hs]

theorem length_le_of_mem_chunks {α : Type} {size : Nat} (hs : 0 < size) {items chunk : List α}
    (h : chunk ∈ chunks size items) : chunk.length ≤ size := by
  have hlength := length_le_of_mem_chunksOf h
  omega

end PropertyGraph
