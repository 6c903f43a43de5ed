import PropertyGraph.Proofs.Ascending
import PropertyGraph.Store.Basic

/-!
# Pages of a query

The rows that a query would still come to stand in strictly ascending order of their places in its view
(`Table.ahead_ascending`), each place once. A page takes the first of them, and the continuation after its key comes to
exactly the others (`Table.ahead_continued`). Everything that is said of walks over pages follows from these two facts.
-/

namespace PropertyGraph

namespace View

/-- The place of a row in a view, which is empty where the row is not in the view. -/
def place (view : View) (row : Row) : List String := (view.position? row).getD []

theorem place_eq {view : View} {row : Row} {position : List String} (h : view.position? row = some position) :
    view.place row = position := by
  rw [place, h, Option.getD_some]

/-- Rows at one place of a view have one key. -/
theorem key_eq_of_place {view : View} {a b : Row} {position : List String} (ha : view.position? a = some position)
    (hb : view.position? b = some position) : a.key = b.key := by
  cases view with
  | table =>
    simp only [position?, Option.some.injEq] at ha hb
    exact Key.position_injective (ha.trans hb.symm)
  | edgeIndex =>
    simp only [position?, Option.map_eq_some_iff] at ha hb
    obtain ⟨edge, -, rfl⟩ := ha
    obtain ⟨other, -, heq⟩ := hb
    simp only [List.cons.injEq, and_true] at heq
    exact Key.position_injective (by simp only [Key.position, heq.2.1, heq.2.2])

/-- In the order of a view no row comes before one that stands at an earlier place. -/
theorem inOrder_pairwise (view : View) (rows : List Row) :
    (view.inOrder rows).Pairwise fun a b => ¬ view.place b < view.place a := by
  have hplaced : ∀ p ∈ rows.map fun row => ((view.position? row).getD [], row), p.1 = view.place p.2 := by
    intro p hp
    obtain ⟨row, -, rfl⟩ := List.mem_map.mp hp
    rfl
  refine List.pairwise_map.mpr (List.Pairwise.imp_of_mem ?_ (List.pairwise_mergeSort ?_ ?_ _))
  · intro a b ha hb h
    rw [← hplaced a (List.mem_mergeSort.mp ha), ← hplaced b (List.mem_mergeSort.mp hb)]
    simpa using h
  · intro a b c hab hbc
    simp only [Bool.not_eq_eq_eq_not, Bool.not_true, decide_eq_false_iff_not] at hab hbc ⊢
    exact Std.not_lt.mpr (Std.le_trans (Std.not_lt.mp hab) (Std.not_lt.mp hbc))
  · intro a b
    simp only [Bool.or_eq_true, Bool.not_eq_eq_eq_not, Bool.not_true, decide_eq_false_iff_not]
    by_cases h : b.1 < a.1
    · exact Or.inr (Std.not_lt.mpr (Std.le_of_lt h))
    · exact Or.inl h

/-- Putting rows in order only moves them. -/
theorem inOrder_perm (view : View) (rows : List Row) : (view.inOrder rows).Perm rows := by
  have h := (List.mergeSort_perm (rows.map fun row => ((view.position? row).getD [], row)) fun a b => !(b.1 < a.1)).map
    Prod.snd
  rw [List.map_map] at h
  simpa [inOrder, Function.comp_def] using h

end View

namespace Table

theorem eq_of_key {t : Table} {a b : Row} (ha : a ∈ t.rows) (hb : b ∈ t.rows) (h : a.key = b.key) : a = b :=
  SortedAux.eq_of_key_eq t.ascending ha hb (by rw [h])

theorem nodup_rows (t : Table) : t.rows.Nodup := SortedAux.nodup_of_ascending t.ascending

/-- The rows that a query would still come to stand in strictly ascending order of their places. -/
theorem ahead_ascending (t : Table) (q : Query) (view : View) (start : Option (List String)) :
    (t.ahead q view start).Pairwise (view.place · < view.place ·) := by
  cases view with
  | table => exact (t.ascending.filter _).imp id
  | edgeIndex =>
    have hperm := View.inOrder_perm .edgeIndex (t.rows.filter (q.reaches .edgeIndex start))
    have hnodup : (View.edgeIndex.inOrder (t.rows.filter (q.reaches .edgeIndex start))).Nodup :=
      hperm.nodup_iff.mpr (t.nodup_rows.filter _)
    refine List.Pairwise.imp_of_mem ?_ (List.pairwise_and_iff.mpr ⟨View.inOrder_pairwise .edgeIndex _, hnodup⟩)
    rintro a b ha hb ⟨hle, hne⟩
    obtain ⟨hta, hra⟩ := List.mem_filter.mp (hperm.mem_iff.mp ha)
    obtain ⟨htb, hrb⟩ := List.mem_filter.mp (hperm.mem_iff.mp hb)
    obtain ⟨pa, hpa, -, -⟩ := QueryAux.of_reaches hra
    obtain ⟨pb, hpb, -, -⟩ := QueryAux.of_reaches hrb
    refine Classical.byContradiction fun hlt => hne ?_
    have hplace : View.edgeIndex.place a = View.edgeIndex.place b := SortedAux.eq_of_not_lt hlt hle
    rw [View.place_eq hpa, View.place_eq hpb] at hplace
    exact eq_of_key hta htb (View.key_eq_of_place hpa (hplace ▸ hpb))

/-- A query that continues after the last row of a page comes to the rows behind that page. -/
theorem ahead_continued {t : Table} {q : Query} {view : View} {start : Option (List String)} {count : Nat} {last : Row}
    {position : List String} (hl : ((t.ahead q view start).take count).getLast? = some last)
    (hp : view.position? last = some position) :
    t.ahead q view (some position) = (t.ahead q view start).drop count := by
  have hasc := t.ahead_ascending q view start
  refine SortedAux.eq_of_ascending (t.ahead_ascending q view _) hasc.drop ?_
  intro row
  rw [SortedAux.mem_drop_iff hasc hl, mem_ahead, mem_ahead, View.place_eq hp]
  obtain ⟨-, hlast⟩ := mem_ahead.mp (List.mem_of_mem_take (List.mem_of_getLast? hl))
  obtain ⟨placeOfLast, hpl, -, hafter⟩ := QueryAux.of_reaches hlast
  obtain rfl : placeOfLast = position := Option.some.inj (hpl.symm.trans hp)
  constructor
  · rintro ⟨hrow, hreach⟩
    obtain ⟨place, hplace, hcovers, hlt⟩ := QueryAux.of_reaches hreach
    have hlt' : placeOfLast < place := of_decide_eq_true hlt
    refine ⟨⟨hrow, ?_⟩, (View.place_eq hplace).symm ▸ hlt'⟩
    simp only [Query.reaches, hplace, hcovers, Bool.true_and]
    cases start with
    | none => rfl
    | some s => exact decide_eq_true (List.lt_trans (of_decide_eq_true hafter) hlt')
  · rintro ⟨⟨hrow, hreach⟩, hlt⟩
    obtain ⟨place, hplace, hcovers, -⟩ := QueryAux.of_reaches hreach
    rw [View.place_eq hplace] at hlt
    refine ⟨hrow, ?_⟩
    simp only [Query.reaches, hplace, hcovers, Bool.true_and, Query.isAfter]
    exact decide_eq_true hlt

/-- How many rows a query would still come to. -/
theorem length_ahead (t : Table) (q : Query) (view : View) (start : Option (List String)) :
    (t.ahead q view start).length = t.rows.countP (q.reaches view start) := by
  cases view with
  | table => rw [ahead, List.countP_eq_length_filter]
  | edgeIndex => rw [ahead, (View.inOrder_perm _ _).length_eq, List.countP_eq_length_filter]

end Table

/-- A page that names no key has read all rows. -/
theorem length_le_of_no_last {α : Type} {rows : List Row} {limit : Nat} {f : Row → α} (hl : 0 < limit)
    (h : (if rows.length > limit then (rows.take limit).getLast?.map f else none) = none) : rows.length ≤ limit := by
  refine Nat.le_of_not_lt ?_
  intro hlong
  rw [if_pos hlong, Option.map_eq_none_iff, List.getLast?_eq_none_iff, List.take_eq_nil_iff] at h
  rcases h with h | h
  · omega
  · rw [h] at hlong
    simp at hlong

end PropertyGraph
