import Mathlib.Logic.ExistsUnique
import PropertyGraph.Filter.Predicate
import PropertyGraph.Proofs.ByteOrder

/-!
# How the comparisons hang together

Two integers stand in one of three orders, and so do two texts; the comparisons by order and by equality are read off
it, for both alike (`Value.exists_order`). Besides, texts contain one another, begin and end with one another as lists
of characters do. From these come the laws that tie the comparisons together (`Value.comparisons_are_consistent`);
values that cannot be compared satisfy none of them.
-/

namespace PropertyGraph

/-- Whether a value satisfies a comparison with another one. -/
def Value.Meets (v : Value) (c : Comparison) (x : Value) : Prop := Predicate.isMatch ⟨c, .value x⟩ v = true

/-- Two integers, or two texts. -/
inductive Value.Alike : Value → Value → Prop
  | integers (m n : Int64) : Alike (.int m) (.int n)
  | texts (s t : String) : Alike (.string s) (.string t)

/-- Whether values of two kinds can be compared: two booleans, two texts, or two numbers. -/
def Kind.Comparable : Kind → Kind → Prop
  | .bool, .bool | .string, .string | .int, .int | .int, .float | .float, .int | .float, .float => True
  | _, _ => False

/-! ## One order for integers and for texts -/

section Order

variable {α : Type} [LT α] [DecidableLT α] {a b : α}

/-- In which order two things stand. -/
def orderOf (a b : α) : Ordering := if a < b then .lt else if b < a then .gt else .eq

theorem orderOf_eq_lt : orderOf a b = .lt ↔ a < b := by
  rw [orderOf]
  split
  next hlt => exact iff_of_true rfl hlt
  next hlt =>
    refine iff_of_false ?_ hlt
    split <;> simp

/-- They are level where they are one. -/
theorem orderOf_eq_eq [LE α] [Std.IsLinearOrder α] [Std.LawfulOrderLT α] : orderOf a b = .eq ↔ a = b := by
  constructor
  · intro h
    rw [orderOf] at h
    split at h
    · simp at h
    next hab =>
      split at h
      · simp at h
      next hba => exact SortedAux.eq_of_not_lt hab hba
  · rintro rfl
    rw [orderOf, if_neg Std.lt_irrefl, if_neg Std.lt_irrefl]

/-- The first is above the second where it is greater. -/
theorem orderOf_eq_gt [LE α] [Std.IsLinearOrder α] [Std.LawfulOrderLT α] : orderOf a b = .gt ↔ b < a := by
  rw [orderOf]
  split
  next hab => exact iff_of_false (by simp) fun hba => Std.lt_irrefl (Std.lt_trans hab hba)
  · split
    next hba => exact iff_of_true rfl hba
    next hba => exact iff_of_false (by simp) hba

end Order

/-- The comparisons by order and by equality. -/
def Comparison.byOrder : List Comparison := [.lessThan, .lessThanOrEqualTo, .greaterThan, .greaterThanOrEqualTo,
    .equalTo, .notEqualTo]

namespace Value

variable {v x y : Value}

theorem meets_integers_iff {m n : Int64} {c : Comparison} :
    (Value.int m).Meets c (.int n) ↔ c.onOrder (orderOf m n) = true :=
  Iff.rfl

/-- Texts are compared by their order where the comparison is by order. -/
theorem meets_texts_iff {s t : String} {c : Comparison} (hc : c ∈ Comparison.byOrder) :
    (Value.string s).Meets c (.string t) ↔ c.onOrder (orderOf s t) = true := by
  have hmeets : (Value.string s).Meets c (.string t) ↔ c.onTexts s t = true := Iff.rfl
  simp only [Comparison.byOrder, List.mem_cons, List.not_mem_nil, or_false] at hc
  rcases hc with rfl | rfl | rfl | rfl | rfl | rfl <;>
    simp [hmeets, Comparison.onTexts, Comparison.onOrder, ← orderOf_eq_lt (a := s), ← orderOf_eq_gt (a := s), ←
      orderOf_eq_eq (a := s)]

theorem exists_order (h : v.Alike x) : ∃ o, ∀ c ∈ Comparison.byOrder, v.Meets c x ↔ c.onOrder o = true := by
  cases h with
  | integers m n => exact ⟨orderOf m n, fun c _ => meets_integers_iff⟩
  | texts s t => exact ⟨orderOf s t, fun c hc => meets_texts_iff hc⟩

/-- Of alike values the first is less than, equal to or greater than the second, and only one of these. -/
theorem existsUnique_order (h : v.Alike x) : ∃! c, c ∈ [Comparison.lessThan, .equalTo, .greaterThan] ∧ v.Meets c x := by
  obtain ⟨o, ho⟩ := exists_order h
  have hthree : ∀ c ∈ [Comparison.lessThan, .equalTo, .greaterThan], c ∈ Comparison.byOrder := by decide
  obtain ⟨c, hc, hmeets, hother⟩ : ∃ c ∈ [Comparison.lessThan, .equalTo, .greaterThan], c.onOrder o = true ∧
      ∀ d ∈ [Comparison.lessThan, .equalTo, .greaterThan], d.onOrder o = true → d = c := by
    cases o <;> decide
  exact ⟨c, ⟨hc, (ho c (hthree c hc)).mpr hmeets⟩, fun d ⟨hd, hmeets⟩ => hother d hd ((ho d (hthree d hd)).mp hmeets)⟩

/-- A comparison by order that is the opposite of another one holds of alike values exactly where the other does not. -/
theorem meets_iff_not_meets (h : v.Alike x) {c d : Comparison} (hc : c ∈ Comparison.byOrder)
    (hd : d ∈ Comparison.byOrder) (hopposite : ∀ o, c.onOrder o = !d.onOrder o) : v.Meets c x ↔ ¬ v.Meets d x := by
  obtain ⟨o, ho⟩ := exists_order h
  rw [ho c hc, ho d hd, hopposite, Bool.not_eq_true', Bool.not_eq_true]

theorem meets_lessThan_integers {m n : Int64} : (Value.int m).Meets .lessThan (.int n) ↔ m.toInt < n.toInt := by
  rw [meets_integers_iff, Comparison.onOrder, beq_iff_eq, orderOf_eq_lt, Int64.lt_iff_toInt_lt]

theorem meets_lessThan_texts {s t : String} :
    (Value.string s).Meets .lessThan (.string t) ↔ ByteOrder.bytes s < ByteOrder.bytes t := by
  rw [meets_texts_iff (by decide), Comparison.onOrder, beq_iff_eq, orderOf_eq_lt, ByteOrder.lt_iff_bytes_lt]

/-- Being less is transitive. -/
theorem meets_lessThan_trans (hvx : v.Alike x) (hxy : x.Alike y) (hv : v.Meets .lessThan x) (hx : x.Meets .lessThan y) :
    v.Meets .lessThan y := by
  cases hvx with
  | integers m n =>
    cases hxy with
    | integers _ k =>
      rw [meets_lessThan_integers] at hv hx ⊢
      exact Int.lt_trans hv hx
  | texts s t =>
    cases hxy with
    | texts _ u =>
      rw [meets_lessThan_texts] at hv hx ⊢
      exact Std.lt_trans hv hx

/-- Alike values are equal to one another where they are one. -/
theorem meets_equalTo_iff (h : v.Alike x) : v.Meets .equalTo x ↔ v = x := by
  cases h with
  | integers m n => rw [meets_integers_iff, Comparison.onOrder, beq_iff_eq, orderOf_eq_eq, int.injEq]
  | texts s t => rw [meets_texts_iff (by decide), Comparison.onOrder, beq_iff_eq, orderOf_eq_eq, string.injEq]

end Value

/-! ## Texts in one another -/

/-- A list stands somewhere in another where there is something before and after it. -/
theorem isInfix_iff {part whole : List Char} : isInfix part whole = true ↔ part <:+: whole := by
  induction whole with
  | nil => rw [isInfix, List.isEmpty_iff, List.infix_nil]
  | cons c rest ih => rw [isInfix, Bool.or_eq_true, List.isPrefixOf_iff_prefix, ih, List.infix_cons_iff]

namespace Value

variable {v x : Value} {s t u : String}

theorem meets_contains_texts : (string s).Meets .contains (.string t) ↔ t.toList <:+: s.toList := isInfix_iff

theorem meets_beginsWith_texts : (string s).Meets .beginsWith (.string t) ↔ t.toList <+: s.toList :=
  List.isPrefixOf_iff_prefix

theorem meets_endsWith_texts : (string s).Meets .endsWith (.string t) ↔ t.toList <:+ s.toList :=
  List.isSuffixOf_iff_suffix

/-- Not to contain is the opposite of to contain. -/
theorem meets_notContains_iff (h : v.Alike x) : v.Meets .notContains x ↔ ¬ v.Meets .contains x := by
  cases h with
  | integers m n =>
    rw [meets_integers_iff, meets_integers_iff, Comparison.onOrder, Comparison.onOrder, bne, Bool.not_eq_true',
      Bool.not_eq_true]
  | texts s t =>
    have hnot : (string s).Meets .notContains (.string t) ↔ (!isInfix t.toList s.toList) = true := Iff.rfl
    rw [hnot, meets_contains_texts, ← isInfix_iff, Bool.not_eq_true', Bool.not_eq_true]

/-- Texts are equal where each of them contains the other. -/
theorem meets_equalTo_texts_iff : (string s).Meets .equalTo (.string t) ↔
    (string s).Meets .contains (.string t) ∧ (string t).Meets .contains (.string s) := by
  rw [meets_equalTo_iff (.texts s t), meets_contains_texts, meets_contains_texts, string.injEq]
  constructor
  · rintro rfl
    exact ⟨List.infix_rfl, List.infix_rfl⟩
  · rintro ⟨hts, hst⟩
    exact String.toList_injective (hst.eq_of_length (Nat.le_antisymm hst.length_le hts.length_le))

/-! ## Integers in a range -/

/-- An integer is between two bounds where it is at least the one and at most the other. -/
theorem isMatch_between_iff {n low high : Int64} :
    Predicate.isMatch ⟨.between, .range (.int low) (.int high)⟩ (.int n) = true ↔
    (int n).Meets .greaterThanOrEqualTo (.int low) ∧ (int n).Meets .lessThanOrEqualTo (.int high) := by
  rw [meets_integers_iff, meets_integers_iff]
  simp [Predicate.isMatch, matchesNumber, numberOrder?, Comparison.onOrder, orderOf, intOrder]

/-! ## Values that cannot be compared -/

/-- Two values have an order as numbers only where their kinds can be compared. -/
theorem numberOrder?_eq_none (h : ¬ v.kind.Comparable x.kind) : numberOrder? v x = none := by
  cases v <;> cases x <;> simp_all [kind, Kind.Comparable, numberOrder?, number?]

end Value

/-- The values that a comparison is made with. -/
def Operand.values : Operand → List Value
  | .value v => [v]
  | .range low high => [low, high]

/-- Where a value cannot be compared with one of those that it is to be compared with, no comparison is satisfied. -/
theorem isMatch_eq_false {v : Value} {o : Operand} (h : ∃ x ∈ o.values, ¬ v.kind.Comparable x.kind) (c : Comparison) :
    Predicate.isMatch ⟨c, o⟩ v = false := by
  obtain ⟨x, hx, hkinds⟩ := h
  have hnone := Value.numberOrder?_eq_none hkinds
  cases o with
  | value _ =>
    obtain rfl := List.mem_singleton.mp hx
    cases v with
    | bool _ =>
      cases x with
      | bool _ => exact absurd trivial hkinds
      | _ => rfl
    | string _ =>
      cases x with
      | string _ => exact absurd trivial hkinds
      | _ => rfl
    | int _ | float _ => rw [Predicate.isMatch, matchesNumber, hnone, Option.any_none]
    | list _ | node _ => rfl
  | range low high =>
    cases v with
    | int _ | float _ =>
      rw [Predicate.isMatch, matchesNumber]
      simp only [Operand.values, List.mem_cons, List.not_mem_nil, or_false] at hx
      rcases hx with rfl | rfl
      · rw [hnone, Option.any_none, Bool.and_false, Bool.false_and]
      · rw [hnone, Option.any_none, Bool.and_false]
    | bool _ | string _ | list _ | node _ => rfl

/-- How the comparisons hang together:
1. Of two integers, and of two texts, the first is less than, equal to or greater than the second, and only one of
   these; at most is not greater, at least is not less, and the negated comparisons are satisfied where the others are
   not. They are equal where they are one, and being less is transitive.
2. Integers are ordered as numbers. Of them to contain is to be equal, and to be between two bounds is to be at least
   the one and at most the other.
3. Texts are ordered as their bytes, and contain one another as lists of characters. A text contains what it begins
   with and what it ends with; two texts are equal where each contains the other, and containing is transitive.
4. A value that cannot be compared with one of those that it is compared with satisfies no comparison, the negated ones
   included. -/
theorem Value.comparisons_are_consistent :
    (∀ v x : Value, v.Alike x →
      (∃! c, c ∈ [Comparison.lessThan, .equalTo, .greaterThan] ∧ v.Meets c x) ∧
      (v.Meets .lessThanOrEqualTo x ↔ ¬ v.Meets .greaterThan x) ∧
      (v.Meets .greaterThanOrEqualTo x ↔ ¬ v.Meets .lessThan x) ∧
      (v.Meets .notEqualTo x ↔ ¬ v.Meets .equalTo x) ∧
      (v.Meets .notContains x ↔ ¬ v.Meets .contains x) ∧
      (v.Meets .equalTo x ↔ v = x) ∧
      ∀ y, x.Alike y → v.Meets .lessThan x → x.Meets .lessThan y → v.Meets .lessThan y) ∧
    (∀ m n low high : Int64,
      ((int m).Meets .lessThan (.int n) ↔ m.toInt < n.toInt) ∧
      ((int m).Meets .contains (.int n) ↔ (int m).Meets .equalTo (.int n)) ∧
      (Predicate.isMatch ⟨.between, .range (.int low) (.int high)⟩ (.int n) = true ↔
        (int n).Meets .greaterThanOrEqualTo (.int low) ∧ (int n).Meets .lessThanOrEqualTo (.int high))) ∧
    (∀ s t u : String,
      ((string s).Meets .lessThan (.string t) ↔ ByteOrder.bytes s < ByteOrder.bytes t) ∧
      ((string s).Meets .contains (.string t) ↔ t.toList <:+: s.toList) ∧
      ((string s).Meets .beginsWith (.string t) ∨ (string s).Meets .endsWith (.string t) →
        (string s).Meets .contains (.string t)) ∧
      ((string s).Meets .equalTo (.string t) ↔
        (string s).Meets .contains (.string t) ∧ (string t).Meets .contains (.string s)) ∧
      ((string s).Meets .contains (.string t) → (string t).Meets .contains (.string u) →
        (string s).Meets .contains (.string u))) ∧
    ∀ (v : Value) (o : Operand), (∃ x ∈ o.values, ¬ v.kind.Comparable x.kind) →
      ∀ c, Predicate.isMatch ⟨c, o⟩ v = false := by
  refine ⟨fun v x h => ⟨existsUnique_order h, ?_, ?_, ?_, meets_notContains_iff h, meets_equalTo_iff h,
      fun y => meets_lessThan_trans h⟩,
    fun m n low high => ⟨meets_lessThan_integers, Iff.rfl, isMatch_between_iff⟩, fun s t u => ?_,
    fun v o => isMatch_eq_false⟩
  · exact meets_iff_not_meets h (by decide) (by decide) fun o => by cases o <;> rfl
  · exact meets_iff_not_meets h (by decide) (by decide) fun o => by cases o <;> rfl
  · exact meets_iff_not_meets h (by decide) (by decide) fun o => by cases o <;> rfl
  · refine ⟨meets_lessThan_texts, meets_contains_texts, ?_, meets_equalTo_texts_iff, ?_⟩
    · rw [meets_beginsWith_texts, meets_endsWith_texts, meets_contains_texts]
      rintro (hbegins | hends)
      · exact hbegins.isInfix
      · exact hends.isInfix
    · simp only [meets_contains_texts]
      intro hts hut
      exact hut.trans hts

namespace Sample

/-- Gus comes before Hal and Hal before Ida, so that Gus comes before Ida; as his name begins with a G it contains one;
and it is not even unequal to a number. -/
theorem names_compare :
    (Value.string "Gus").Meets .lessThan (.string "Ida") ∧ (Value.string "Gus").Meets .contains (.string "G") ∧
    Predicate.isMatch ⟨.notEqualTo, .value (.int 7)⟩ (.string "Gus") = false := by
  obtain ⟨hordered, -, htexts, hapart⟩ := Value.comparisons_are_consistent
  obtain ⟨-, -, -, -, -, -, htrans⟩ := hordered _ _ (.texts "Gus" "Hal")
  have hgus : (Value.string "Gus").Meets .lessThan (.string "Hal") :=
    show Predicate.isMatch _ _ = true by decide +kernel
  have hhal : (Value.string "Hal").Meets .lessThan (.string "Ida") :=
    show Predicate.isMatch _ _ = true by decide +kernel
  have hbegins : (Value.string "Gus").Meets .beginsWith (.string "G") :=
    show Predicate.isMatch _ _ = true by decide +kernel
  exact ⟨htrans (.string "Ida") (.texts _ _) hgus hhal, (htexts "Gus" "G" "G").2.2.1 (Or.inl hbegins),
    hapart _ _ ⟨.int 7, List.mem_singleton_self _, id⟩ _⟩

end Sample

end PropertyGraph
