import Mathlib.Algebra.Order.Floor.Div
import PropertyGraph.Batch.Chunk

/-!
# Cutting a list up

The chunks of a list are the one way to cut it up into consecutive parts of one size, of which only the last may be
shorter and none is empty (`cutsUp_iff_eq_chunks`). Each of them is the slice that its place says (`getElem?_chunks`),
so that an element is found by division: in the chunk that the quotient of its place names, at the place that the
remainder names (`getElem?_eq_of_chunks`).
-/

namespace PropertyGraph

variable {α : Type}

/-- Whether parts cut a list up by a size. -/
structure CutsUp (size : Nat) (items : List α) (parts : List (List α)) : Prop where
  /-- The parts one after the other are the list. -/
  flatten_eq : parts.flatten = items
  /-- No part is empty. -/
  ne_nil : ∀ part ∈ parts, part ≠ []
  /-- No part is longer than the size. -/
  length_le : ∀ part ∈ parts, part.length ≤ size
  /-- No part but the last is shorter. -/
  length_eq : ∀ part ∈ parts.dropLast, part.length = size

namespace CutsUp

variable {size : Nat} {items part : List α} {parts : List (List α)}

/-- The parts behind the first cut up what is left behind it. -/
theorem tail (h : CutsUp size items (part :: parts)) : CutsUp size parts.flatten parts := by
  refine ⟨rfl, ?_, ?_, ?_⟩
  · intro other hother
    exact h.ne_nil other (List.mem_cons_of_mem _ hother)
  · intro other hother
    exact h.length_le other (List.mem_cons_of_mem _ hother)
  · intro other hother
    apply h.length_eq other
    cases parts with
    | nil => simp at hother
    | cons next parts => exact List.mem_cons_of_mem _ hother

theorem length_head {next : List α} (h : CutsUp size items (part :: next :: parts)) : part.length = size :=
  h.length_eq part List.mem_cons_self

end CutsUp

/-! ## The chunks by their places -/

/-- The chunk at a place is the slice behind the full chunks ahead of it, of which one less stands ahead in the
elements behind the first chunk, where an element is left for it. -/
theorem getElem?_chunksOf (more : Nat) (items : List α) (place : Nat) :
    (chunksOf more items)[place]? =
      if place * (more + 1) < items.length then some ((items.drop (place * (more + 1))).take (more + 1)) else none := by
  induction items using chunksOf.induct more generalizing place with
  | case1 => simp [chunksOf]
  | case2 a rest ih =>
    rw [chunksOf]
    cases place with
    | zero => simp
    | succ place =>
      have hplace : (place + 1) * (more + 1) = more + place * (more + 1) + 1 := by
        rw [Nat.succ_mul]
        omega
      have hleft : place * (more + 1) < (rest.drop more).length ↔ (place + 1) * (more + 1) < (a :: rest).length := by
        rw [List.length_drop, List.length_cons, hplace]
        omega
      rw [List.getElem?_cons_succ, ih, hplace, List.drop_succ_cons, ← List.drop_drop]
      simp only [hleft, hplace]

theorem lt_length_chunksOf_iff {more place : Nat} {items : List α} :
    place < (chunksOf more items).length ↔ place * (more + 1) < items.length := by
  rw [← not_iff_not, not_lt, ← List.getElem?_eq_none_iff, getElem?_chunksOf, ite_eq_right_iff]
  simp

/-- A size of zero counts as one. -/
theorem chunks_eq_chunksOf (size : Nat) (items : List α) :
    ∃ more, more + 1 = max size 1 ∧ chunks size items = chunksOf more items :=
  ⟨size - 1, by omega, rfl⟩

/-- The chunk at a place is the slice behind the full chunks ahead of it, where an element is left for it. -/
theorem getElem?_chunks (size : Nat) (items : List α) (place : Nat) :
    (chunks size items)[place]? =
      if place * max size 1 < items.length then some ((items.drop (place * max size 1)).take (max size 1))
        else none := by
  obtain ⟨more, hmore, hchunks⟩ := chunks_eq_chunksOf size items
  rw [hchunks, ← hmore, getElem?_chunksOf]

/-- The element at a place is found in the chunk of the quotient, at the place of the remainder. -/
theorem getElem?_eq_of_chunks (size : Nat) (items : List α) (place : Nat) :
    items[place]? = ((chunks size items)[place / max size 1]?).bind fun chunk => chunk[place % max size 1]? := by
  have hpos : 0 < max size 1 := Nat.lt_of_lt_of_le Nat.one_pos (Nat.le_max_right ..)
  have hplace : place / max size 1 * max size 1 + place % max size 1 = place := Nat.div_add_mod' ..
  rw [getElem?_chunks]
  split
  next =>
    rw [Option.bind_some, List.getElem?_take_of_lt (Nat.mod_lt _ hpos), List.getElem?_drop, hplace]
  next hnone =>
    rw [Option.bind_none, List.getElem?_eq_none_iff]
    omega

/-! ## The one way to cut a list up -/

/-- The chunks of a list cut it up. -/
theorem chunksOf_cutsUp (more : Nat) (items : List α) : CutsUp (more + 1) items (chunksOf more items) := by
  refine ⟨chunksOf_flatten more items, fun _ => ne_nil_of_mem_chunksOf, fun _ => length_le_of_mem_chunksOf, ?_⟩
  intro part hpart
  obtain ⟨place, hplace⟩ := List.mem_iff_getElem?.mp hpart
  obtain ⟨hlast, hplace⟩ := Option.ite_none_right_eq_some.mp (List.getElem?_dropLast.symm.trans hplace)
  have hnext : (place + 1) * (more + 1) < items.length := lt_length_chunksOf_iff.mp (by omega)
  rw [Nat.succ_mul] at hnext
  rw [getElem?_chunksOf, if_pos (by omega), Option.some.injEq] at hplace
  rw [← hplace, List.length_take, List.length_drop]
  omega

/-- Parts that cut a list up are its chunks: the first part is the first chunk, as long as it is full or nothing
follows it. -/
theorem CutsUp.eq_chunksOf {more : Nat} {items : List α} {parts : List (List α)} (h : CutsUp (more + 1) items parts) :
    parts = chunksOf more items := by
  induction parts generalizing items with
  | nil => rw [← h.flatten_eq, List.flatten_nil, chunksOf]
  | cons part parts ih =>
    have hsome : part ≠ [] := h.ne_nil part List.mem_cons_self
    cases parts with
    | nil =>
      have hone : chunks (more + 1) part = [part] := chunks_of_le hsome (h.length_le part List.mem_cons_self)
      rw [← h.flatten_eq, List.flatten_singleton]
      exact hone.symm
    | cons next parts =>
      obtain ⟨a, rest, rfl⟩ := List.exists_cons_of_ne_nil hsome
      have hlength : rest.length = more := Nat.succ.inj h.length_head
      rw [← h.flatten_eq, List.flatten_cons, List.cons_append, chunksOf, List.take_left' hlength,
        List.drop_left' hlength, ← ih h.tail]

/-- Parts cut a list up exactly where they are its chunks. -/
theorem cutsUp_iff_eq_chunks (size : Nat) (items : List α) (parts : List (List α)) :
    CutsUp (max size 1) items parts ↔ parts = chunks size items := by
  obtain ⟨more, hmore, hchunks⟩ := chunks_eq_chunksOf size items
  rw [hchunks, ← hmore]
  exact ⟨CutsUp.eq_chunksOf, fun h => h ▸ chunksOf_cutsUp more items⟩

/-- The chunks of a list partition it, where a size of zero counts as one. (1) They are the parts that cut it up: one
after the other they are the list, none is empty, all but the last have the size, and the last has no more. Nothing
else cuts the list up. (2) There are as many as the length over the size, rounded up. (3) The element at a place is
found in the chunk of the quotient by the size, at the place of the remainder. -/
theorem chunks_partition (size : Nat) (items : List α) :
    (∀ parts, CutsUp (max size 1) items parts ↔ parts = chunks size items) ∧
    (chunks size items).length = items.length ⌈/⌉ max size 1 ∧
    ∀ place, items[place]? = ((chunks size items)[place / max size 1]?).bind fun chunk =>
      chunk[place % max size 1]? := by
  refine ⟨cutsUp_iff_eq_chunks size items, ?_, getElem?_eq_of_chunks size items⟩
  obtain ⟨more, hmore, hchunks⟩ := chunks_eq_chunksOf size items
  rw [hchunks, ← hmore, length_chunksOf, Nat.ceilDiv_eq_add_pred_div]
  rfl

namespace Sample

/-- Five ids. -/
def fiveIds : List String := ["ann", "bob", "cid", "dan", "eve"]

/-- Cut up by two, five ids are two pairs and a last one that stands alone; cut up by zero, each stands alone. -/
theorem five_ids_are_cut_up :
    CutsUp (max 2 1) fiveIds [["ann", "bob"], ["cid", "dan"], ["eve"]] ∧
    chunks 2 fiveIds = [["ann", "bob"], ["cid", "dan"], ["eve"]] ∧
    fiveIds[3]? = ((chunks 2 fiveIds)[1]?).bind (·[1]?) ∧
    (chunks 0 fiveIds).length = 5 := by
  have hcut : CutsUp (max 2 1) fiveIds [["ann", "bob"], ["cid", "dan"], ["eve"]] := by constructor <;> decide
  obtain ⟨hparts, -, hplaces⟩ := chunks_partition 2 fiveIds
  obtain ⟨-, hmany, -⟩ := chunks_partition 0 fiveIds
  exact ⟨hcut, ((hparts _).mp hcut).symm, hplaces 3, hmany.trans rfl⟩

end Sample

end PropertyGraph
