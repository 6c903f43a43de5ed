import PropertyGraph.Dict
import PropertyGraph.Sorted

/-!
# Lists in strictly ascending order of a key

What holds of every finite map that is kept in key order: it is determined by its elements, sorting leaves it as it is,
an insertion adds one element and takes out at most the one of the same key, and cutting it at an element leaves
exactly the elements after it.
-/

namespace PropertyGraph
namespace SortedAux

variable {α κ : Type} [LT κ] {key : α → κ}

/-! ## Order and membership -/

theorem nodup_of_ascending [Std.Irrefl (α := κ) (· < ·)] {l : List α} (h : l.Pairwise (key · < key ·)) : l.Nodup := by
  refine List.Pairwise.imp ?_ h
  rintro a b hlt rfl
  exact Std.Irrefl.irrefl _ hlt

/-- Two lists in ascending order that hold the same elements are equal. -/
theorem eq_of_ascending [Std.Irrefl (α := κ) (· < ·)] [Std.Asymm (α := κ) (· < ·)] {l m : List α}
    (hl : l.Pairwise (key · < key ·)) (hm : m.Pairwise (key · < key ·)) (h : ∀ a, a ∈ l ↔ a ∈ m) : l = m := by
  have hperm : l.Perm m :=
    (List.perm_ext_iff_of_nodup (nodup_of_ascending hl) (nodup_of_ascending hm)).mpr fun {a} => h a
  exact hperm.eq_of_pairwise (fun a b _ _ hab hba => absurd hba (Std.Asymm.asymm _ _ hab)) hl hm

/-- Of two elements with one key in an ascending list, each is the other. -/
theorem eq_of_key_eq [Std.Irrefl (α := κ) (· < ·)] {l : List α} (h : l.Pairwise (key · < key ·)) {a b : α} (ha : a ∈ l)
    (hb : b ∈ l) (hk : key a = key b) : a = b := by
  induction l with
  | nil => simp at ha
  | cons c rest ih =>
    obtain ⟨hc, hrest⟩ := List.pairwise_cons.mp h
    rcases List.mem_cons.mp ha with hac | ha
    · rcases List.mem_cons.mp hb with hbc | hb
      · exact hac.trans hbc.symm
      · exact absurd (hk ▸ hac ▸ hc b hb) (Std.Irrefl.irrefl _)
    · rcases List.mem_cons.mp hb with hbc | hb
      · exact absurd (hk ▸ hbc ▸ hc a ha) (Std.Irrefl.irrefl _)
      · exact ih hrest ha hb

/-- Behind the first elements of an ascending list, of which one is the last, are exactly those that come after it. -/
theorem mem_drop_iff [Std.Irrefl (α := κ) (· < ·)] [Std.Asymm (α := κ) (· < ·)] {l : List α} {count : Nat} {last : α}
    (h : l.Pairwise (key · < key ·)) (hl : (l.take count).getLast? = some last) {a : α} :
    a ∈ l.drop count ↔ a ∈ l ∧ key last < key a := by
  have hsplit : l.take count ++ l.drop count = l := List.take_append_drop count l
  obtain ⟨hfirst, -, hcross⟩ := List.pairwise_append.mp (hsplit.symm ▸ h)
  constructor
  · intro ha
    exact ⟨List.mem_of_mem_drop ha, hcross last (List.mem_of_getLast? hl) a ha⟩
  · rintro ⟨ha, hlt⟩
    rw [← hsplit, List.mem_append] at ha
    rcases ha with ha | ha
    · exfalso
      obtain ⟨before, hbefore⟩ := List.getLast?_eq_some_iff.mp hl
      rw [hbefore] at hfirst ha
      rcases List.mem_append.mp ha with ha | ha
      · have hgt := (List.pairwise_append.mp hfirst).2.2 a ha last (List.mem_singleton.mpr rfl)
        exact Std.Asymm.asymm _ _ hlt hgt
      · rw [List.mem_singleton.mp ha] at hlt
        exact Std.Irrefl.irrefl _ hlt
    · exact ha

/-- Of an ascending list, what passes a test that whatever comes after it passes as well is the end of the list. -/
theorem filter_isSuffix {l : List α} (h : l.Pairwise (key · < key ·)) {test : α → Bool}
    (htest : ∀ a b, test a = true → key a < key b → test b = true) : l.filter test <:+ l := by
  induction l with
  | nil => exact List.suffix_refl []
  | cons a rest ih =>
    obtain ⟨ha, hrest⟩ := List.pairwise_cons.mp h
    cases hpass : test a with
    | true =>
      have hall : ∀ b ∈ rest, test b = true := fun b hb => htest a b hpass (ha b hb)
      have hwhole : (a :: rest).filter test = a :: rest :=
        List.filter_eq_self.mpr (List.forall_mem_cons.mpr ⟨hpass, hall⟩)
      exact ⟨[], hwhole⟩
    | false =>
      rw [List.filter_cons_of_neg (by rw [hpass]; exact Bool.false_ne_true)]
      exact (ih hrest).trans (List.suffix_cons a rest)

/-! ## Insertion -/

variable [DecidableLT κ]

/-- An element whose key comes after all others is inserted at the end. -/
theorem insertSorted_eq_append [Std.Asymm (α := κ) (· < ·)] {a : α} {l : List α} (h : ∀ b ∈ l, key b < key a) :
    insertSorted key a l = l ++ [a] := by
  induction l with
  | nil => rfl
  | cons b rest ih =>
    have hb : key b < key a := h b (List.mem_cons_self ..)
    rw [insertSorted, if_neg (Std.Asymm.asymm _ _ hb), if_pos hb, ih fun c hc => h c (List.mem_cons_of_mem _ hc)]
    rfl

theorem mem_insertSorted_self (a : α) (l : List α) : a ∈ insertSorted key a l := by
  induction l with
  | nil => exact List.mem_singleton.mpr rfl
  | cons b rest ih =>
    rw [insertSorted]
    split
    · exact List.mem_cons_self ..
    · split
      · exact List.mem_cons_of_mem _ ih
      · exact List.mem_cons_self ..

/-- A list in ascending order is left as it is when it is sorted. -/
theorem sortedBy_eq_self [Std.Asymm (α := κ) (· < ·)] {as : List α} (h : as.Pairwise (key · < key ·)) :
    sortedBy key as = as := by
  suffices ∀ (as sorted : List α), (sorted ++ as).Pairwise (key · < key ·) →
      as.foldl (fun sorted a => insertSorted key a sorted) sorted = sorted ++ as from this as [] h
  intro as
  induction as with
  | nil => exact fun sorted _ => (List.append_nil sorted).symm
  | cons a rest ih =>
    intro sorted hp
    have hbefore : ∀ b ∈ sorted, key b < key a :=
      fun b hb => (List.pairwise_append.mp hp).2.2 b hb a (List.mem_cons_self ..)
    rw [List.foldl_cons, insertSorted_eq_append hbefore, ih, List.append_assoc, List.singleton_append]
    rwa [List.append_assoc, List.singleton_append]

/-- Sorting goes along with a map that keeps the keys. -/
theorem sortedBy_map {β : Type} {f : α → β} {key' : β → κ} (h : ∀ a, key' (f a) = key a) (as : List α) :
    sortedBy key' (as.map f) = (sortedBy key as).map f := by
  have hinsert : ∀ (a : α) (l : List α), insertSorted key' (f a) (l.map f) = (insertSorted key a l).map f := by
    intro a l
    induction l with
    | nil => rfl
    | cons b rest ih =>
      rw [List.map_cons, insertSorted, insertSorted, h, h, ih]
      split
      · rfl
      · split <;> rfl
  suffices ∀ (as sorted : List α), (as.map f).foldl (fun sorted b => insertSorted key' b sorted) (sorted.map f) =
      (as.foldl (fun sorted a => insertSorted key a sorted) sorted).map f from this as []
  intro as
  induction as with
  | nil => exact fun _ => rfl
  | cons a rest ih =>
    intro sorted
    rw [List.map_cons, List.foldl_cons, List.foldl_cons, hinsert, ih]

variable [LE κ] [Std.IsLinearOrder κ] [Std.LawfulOrderLT κ]

/-- An element of another key than all others is added to them. -/
theorem insertSorted_perm {a : α} {l : List α} (h : ∀ b ∈ l, key b ≠ key a) : (insertSorted key a l).Perm (a :: l) := by
  induction l with
  | nil => exact List.Perm.refl _
  | cons b rest ih =>
    rw [insertSorted]
    split
    · exact List.Perm.refl _
    next hab =>
      split
      · exact ((ih fun c hc => h c (List.mem_cons_of_mem _ hc)).cons b).trans (List.Perm.swap a b rest)
      next hba => exact absurd (eq_of_not_lt hba hab) (h b (List.mem_cons_self ..))

/-- Sorting brings a list of distinct keys into another order. -/
theorem sortedBy_perm {as : List α} (h : (as.map key).Nodup) : (sortedBy key as).Perm as := by
  suffices ∀ (as sorted : List α), ((as ++ sorted).map key).Nodup →
      (as.foldl (fun sorted a => insertSorted key a sorted) sorted).Perm (as ++ sorted) by
    have hperm := this as [] (by rwa [List.append_nil])
    rwa [List.append_nil] at hperm
  intro as
  induction as with
  | nil => exact fun sorted _ => List.Perm.refl sorted
  | cons a rest ih =>
    intro sorted hnodup
    have hnew : ∀ b ∈ sorted, key b ≠ key a := by
      intro b hb heq
      refine (List.nodup_cons.mp hnodup).1 ?_
      exact List.mem_map.mpr ⟨b, List.mem_append_right rest hb, heq⟩
    have hmoved : (rest ++ insertSorted key a sorted).Perm (a :: rest ++ sorted) :=
      ((insertSorted_perm hnew).append_left rest).trans List.perm_middle
    exact (ih _ ((hmoved.map key).nodup_iff.mpr hnodup)).trans hmoved

/-- An insertion keeps the elements of other keys. -/
theorem mem_insertSorted_of_mem {a b : α} {l : List α} (hb : b ∈ l) (hk : key b ≠ key a) :
    b ∈ insertSorted key a l := by
  induction l with
  | nil => exact absurd hb List.not_mem_nil
  | cons c rest ih =>
    rw [insertSorted]
    split
    · exact List.mem_cons_of_mem _ hb
    next hac =>
      split
      · rcases List.mem_cons.mp hb with rfl | hb
        · exact List.mem_cons_self ..
        · exact List.mem_cons_of_mem _ (ih hb)
      next hca =>
        rcases List.mem_cons.mp hb with rfl | hb
        · exact absurd (eq_of_not_lt hca hac) hk
        · exact List.mem_cons_of_mem _ hb

/-- An insertion into an ascending list adds the element and takes out the one of the same key. -/
theorem mem_insertSorted_iff {a b : α} {l : List α} (h : l.Pairwise (key · < key ·)) :
    b ∈ insertSorted key a l ↔ b = a ∨ (b ∈ l ∧ key b ≠ key a) := by
  constructor
  · intro hb
    by_cases hk : key b = key a
    · exact Or.inl (eq_of_key_eq (pairwise_insertSorted h) hb (mem_insertSorted_self a l) hk)
    · exact (mem_of_mem_insertSorted hb).imp id fun hmem => ⟨hmem, hk⟩
  · rintro (rfl | ⟨hb, hk⟩)
    · exact mem_insertSorted_self _ l
    · exact mem_insertSorted_of_mem hb hk

end SortedAux

theorem Dict.ofList_entries {α : Type} (d : Dict α) : Dict.ofList d.entries = d :=
  Dict.ext_entries (SortedAux.sortedBy_eq_self d.ascending)

end PropertyGraph
