import PropertyGraph.Decimal.Scaled
import PropertyGraph.Json.Basic
import PropertyGraph.Text.Hex

/-!
# The tokens of a JSON text

A text is cut into brackets, commas, colons and scalars; blanks (space, tab, line feed, carriage return) stand between
them. Reading a scalar takes as much as belongs to it and leaves the rest. A numeral without fraction and exponent is
an integer where it fits 64 bits; `-0` and every other numeral is a floating point number. A string ends at the first
quote that no backslash precedes and holds no raw control character. A numeral that is too large and a string that does
not pair its surrogate escapes are tokens that stand for no value.
-/

namespace PropertyGraph
namespace Json

/-- A token of a JSON text. -/
inductive Token where
  | openArray | closeArray | openObject | closeObject | comma | colon
  | scalar (j : Json)
  /-- A string with a surrogate escape outside of a pair. -/
  | loneUnit
  /-- A numeral that is too large for a number. -/
  | hugeNumeral

/-- The character that a backslash and a letter stand for. -/
def escaped? (c : Char) : Option Char :=
  if c = '"' ∨ c = '\\' ∨ c = '/' then some c
  else if c = 'b' then some '\x08'
  else if c = 'f' then some '\x0c'
  else if c = 'n' then some '\n'
  else if c = 'r' then some '\r'
  else if c = 't' then some '\t'
  else none

/-- The first units of surrogate pairs. -/
def isHigh (unit : Nat) : Bool := 0xD800 ≤ unit && unit < 0xDC00

/-- The second units of surrogate pairs. -/
def isLow (unit : Nat) : Bool := 0xDC00 ≤ unit && unit < 0xE000

/-- The characters of a string up to its closing quote, and what follows the quote. -/
def stringBody : List Char → Option (List Char × List Char)
  | [] => none
  | '"' :: rest => some ([], rest)
  | '\\' :: 'u' :: a :: b :: c :: d :: rest =>
    match Text.hexUnit? a b c d with
    | none => none
    | some unit =>
      if isHigh unit then
        match rest with
        | '\\' :: 'u' :: e :: f :: g :: h :: rest =>
          match Text.hexUnit? e f g h with
          | some low =>
            if isLow low then
              (stringBody rest).map fun (s, after) =>
                (Char.ofNat (0x10000 + (unit - 0xD800) * 0x400 + (low - 0xDC00)) :: s, after)
            else none
          | none => none
        | _ => none
      else if isLow unit then none
      else (stringBody rest).map fun (s, after) => (Char.ofNat unit :: s, after)
  | '\\' :: c :: rest =>
    match escaped? c with
    | some c => (stringBody rest).map fun (s, after) => (c :: s, after)
    | none => none
  | c :: rest => if c < ' ' then none else (stringBody rest).map fun (s, after) => (c :: s, after)

/-- What follows the closing quote of a string, whether its surrogate escapes pair or not. -/
def afterString? : List Char → Option (List Char)
  | [] => none
  | '"' :: rest => some rest
  | '\\' :: 'u' :: a :: b :: c :: d :: rest => if (Text.hexUnit? a b c d).isSome then afterString? rest else none
  | '\\' :: c :: rest => if (escaped? c).isSome then afterString? rest else none
  | c :: rest => if c < ' ' then none else afterString? rest

/-- The token of a string after its first quote, and what follows it. -/
def quoted? (cs : List Char) : Option (Token × List Char) :=
  match stringBody cs with
  | some (s, rest) => some (.scalar (.string (String.ofList s)), rest)
  | none => (afterString? cs).map (.loneUnit, ·)

/-- Whether a character is a decimal digit. -/
def isDigit (c : Char) : Bool := '0' ≤ c && c ≤ '9'

/-- The sign before the digits of an exponent, and what follows it. -/
def signed : List Char → Bool × List Char
  | '-' :: rest => (true, rest)
  | '+' :: rest => (false, rest)
  | cs => (false, cs)

/-- The exponent after its mark, and what follows it; nothing where no digit is there. -/
def exponent? (cs : List Char) : Option (Int × List Char) :=
  let digits := (signed cs).2.takeWhile isDigit
  let size : Int := digits.foldl (fun n c => n * 10 + Decimal.digit c) 0
  if digits.isEmpty then none
  else some (if (signed cs).1 then -size else size, (signed cs).2.dropWhile isDigit)

/-- The digits of a fraction, where a point is there, and what follows them; nothing where no digit follows the point.
-/
def fraction? : List Char → Option (Option (List Char) × List Char)
  | '.' :: after =>
    if (after.takeWhile isDigit).isEmpty then none else some (some (after.takeWhile isDigit), after.dropWhile isDigit)
  | cs => some (none, cs)

/-- Whether a character marks an exponent. -/
def isExponentMark (c : Char) : Bool := c = 'e' || c = 'E'

/-- What follows the whole part of a numeral: the digits of a fraction, and an exponent, where they are there. -/
structure Tail where
  fraction : Option (List Char)
  exponent : Option Int
  rest : List Char

/-- The exponent, where its mark is there, after a fraction. -/
def Tail.ofFraction? (fraction : Option (List Char)) : List Char → Option Tail
  | [] => some ⟨fraction, none, []⟩
  | c :: after =>
    if isExponentMark c then (exponent? after).map fun e => ⟨fraction, some e.1, e.2⟩
    else some ⟨fraction, none, c :: after⟩

/-- Reads fraction and exponent. -/
def Tail.read? (cs : List Char) : Option Tail := (fraction? cs).bind fun f => Tail.ofFraction? f.1 f.2

/-- The number of a numeral of which all digits of the whole part were collected, and nothing else follows. -/
def wholeNumber (negative : Bool) (value : Nat) : Option Number :=
  if negative then
    if 0 < value ∧ value ≤ 0x8000000000000000 then some (.int (Int64.ofInt (-(value : Int))))
    else Number.ofFloat? (-(Float.ofNat value))
  else if h : 0x8000000000000000 ≤ (UInt64.ofNat value).toNat then some (.large (UInt64.ofNat value) h)
  else some (.int (Int64.ofNat value))

/-- The number of a numeral, where it is not too large, from the digits of its whole part and what follows them. -/
def Tail.number? (negative : Bool) (whole : List Char) (tail : Tail) : Option Number :=
  let collected := Decimal.collect 0 whole
  let dropped := whole.length - collected.count
  match tail.fraction, tail.exponent with
  | none, none =>
    if dropped = 0 then wholeNumber negative collected.value
    else (Decimal.scale negative collected.value dropped).bind Number.ofFloat?
  | fraction, exponent =>
    let places := Decimal.collect collected.value (fraction.getD [])
    let power : Int := dropped - places.count + exponent.getD 0
    (Decimal.scale negative places.value power).bind Number.ofFloat?

/-- The token of a numeral after its sign, and what follows it. A leading zero stands alone. -/
def numeral? (negative : Bool) (cs : List Char) : Option (Token × List Char) :=
  let whole := cs.takeWhile isDigit
  if whole.isEmpty ∨ (whole.head? = some '0' ∧ whole.length > 1) then none
  else
    (Tail.read? (cs.dropWhile isDigit)).map fun tail =>
      (((tail.number? negative whole).map fun n => .scalar (.number n)).getD .hugeNumeral, tail.rest)

/-- What follows the word, where the text begins with it. -/
def afterWord? : List Char → List Char → Option (List Char)
  | [], cs => some cs
  | w :: word, c :: cs => if w = c then afterWord? word cs else none
  | _ :: _, [] => none

/-- The token that a character is by itself. -/
def punctuation? (c : Char) : Option Token :=
  if c = '[' then some .openArray
  else if c = ']' then some .closeArray
  else if c = '\x7b' then some .openObject
  else if c = '\x7d' then some .closeObject
  else if c = ',' then some .comma
  else if c = ':' then some .colon
  else none

/-- What must follow the first character of a word, and the value that the word names. -/
def word? (c : Char) : Option (List Char × Json) :=
  if c = 't' then some ("rue".toList, .bool true)
  else if c = 'f' then some ("alse".toList, .bool false)
  else if c = 'n' then some ("ull".toList, .null)
  else none

/-- A string or a numeral, and what follows it. -/
def literal? (c : Char) (cs : List Char) : Option (Token × List Char) :=
  if c = '"' then quoted? cs
  else if c = '-' then numeral? true cs
  else if isDigit c then numeral? false (c :: cs)
  else none

/-- The first token of a text that begins with neither a blank nor its end, and what follows it. -/
def token? (c : Char) (cs : List Char) : Option (Token × List Char) :=
  match punctuation? c, word? c with
  | some t, _ => some (t, cs)
  | none, some (word, j) => (afterWord? word cs).map (.scalar j, ·)
  | none, none => literal? c cs

namespace TokenAux

/-- What follows a string is shorter than the text from its first character on. -/
theorem length_of_stringBody {cs s rest : List Char} (h : stringBody cs = some (s, rest)) :
    rest.length < cs.length := by
  fun_induction stringBody cs generalizing s rest <;>
    simp_all only [Option.map_eq_some_iff, Prod.exists, Prod.mk.injEq, List.length_cons, Option.some.injEq,
      reduceCtorEq]
  all_goals try omega
  all_goals
    obtain ⟨body, after, hs, -, rfl⟩ := h
    rename_i ih
    have := ih hs
    omega

theorem length_of_afterString? {cs rest : List Char} (h : afterString? cs = some rest) : rest.length < cs.length := by
  fun_induction afterString? cs <;> simp_all only [List.length_cons, Option.some.injEq, reduceCtorEq, forall_const]
  all_goals omega

/-- What follows a string is shorter than the text from its first character on, whether the string has a value or not.
-/
theorem length_of_quoted? {cs rest : List Char} {t : Token} (h : quoted? cs = some (t, rest)) :
    rest.length < cs.length := by
  unfold quoted? at h
  split at h
  next s after hs =>
    simp only [Option.some.injEq, Prod.mk.injEq] at h
    exact h.2 ▸ length_of_stringBody hs
  · simp only [Option.map_eq_some_iff, Prod.mk.injEq] at h
    obtain ⟨_, hs, -, rfl⟩ := h
    exact length_of_afterString? hs

theorem length_dropWhile_le (p : Char → Bool) (cs : List Char) : (cs.dropWhile p).length ≤ cs.length :=
  (List.dropWhile_sublist p).length_le

theorem length_signed_le (cs : List Char) : (signed cs).2.length ≤ cs.length := by
  unfold signed
  split <;> simp

/-- What follows an exponent is not longer than what the exponent was read from. -/
theorem length_of_exponent? {cs rest : List Char} {n : Int} (h : exponent? cs = some (n, rest)) :
    rest.length ≤ cs.length := by
  simp only [exponent?, Option.ite_none_left_eq_some, Option.some.injEq, Prod.mk.injEq] at h
  obtain ⟨-, -, rfl⟩ := h
  exact Nat.le_trans (length_dropWhile_le ..) (length_signed_le cs)

/-- What follows a fraction is not longer than what the fraction was read from. -/
theorem length_of_fraction? {cs rest : List Char} {f : Option (List Char)} (h : fraction? cs = some (f, rest)) :
    rest.length ≤ cs.length := by
  unfold fraction? at h
  split at h
  next after =>
    simp only [Option.ite_none_left_eq_some, Option.some.injEq, Prod.mk.injEq] at h
    obtain ⟨-, -, rfl⟩ := h
    exact Nat.le_succ_of_le (length_dropWhile_le isDigit after)
  next =>
    simp only [Option.some.injEq, Prod.mk.injEq] at h
    exact h.2 ▸ Nat.le_refl _

/-- What follows fraction and exponent is not longer than what they were read from. -/
theorem length_of_tail {cs : List Char} {tail : Tail} (h : Tail.read? cs = some tail) :
    tail.rest.length ≤ cs.length := by
  simp only [Tail.read?, Option.bind_eq_some_iff, Prod.exists] at h
  obtain ⟨f, after, hf, ht⟩ := h
  refine Nat.le_trans ?_ (length_of_fraction? hf)
  cases after with
  | nil =>
    simp only [Tail.ofFraction?, Option.some.injEq] at ht
    exact ht ▸ Nat.le_refl _
  | cons c after =>
    simp only [Tail.ofFraction?] at ht
    split at ht
    · simp only [Option.map_eq_some_iff, Prod.exists] at ht
      obtain ⟨n, rest, he, rfl⟩ := ht
      exact Nat.le_succ_of_le (length_of_exponent? he)
    · simp only [Option.some.injEq] at ht
      exact ht ▸ Nat.le_refl _

/-- What follows a numeral is shorter than the text from its first digit on. -/
theorem length_of_numeral? {negative : Bool} {cs rest : List Char} {t : Token}
    (h : numeral? negative cs = some (t, rest)) : rest.length < cs.length := by
  unfold numeral? at h
  simp only [Option.ite_none_left_eq_some, Option.map_eq_some_iff, Prod.mk.injEq] at h
  obtain ⟨hw, tail, ht, -, rfl⟩ := h
  have hd := length_of_tail ht
  have hpos : 0 < (cs.takeWhile isDigit).length := by
    simp only [not_or] at hw
    exact List.length_pos_iff.mpr (by simpa using hw.1)
  have hsum : (cs.takeWhile isDigit).length + (cs.dropWhile isDigit).length = cs.length := by
    rw [← List.length_append, List.takeWhile_append_dropWhile]
  omega

/-- What follows a word is not longer than the text that begins with it. -/
theorem length_of_afterWord? {word cs rest : List Char} (h : afterWord? word cs = some rest) :
    rest.length ≤ cs.length := by
  induction word generalizing cs with
  | nil =>
    simp only [afterWord?, Option.some.injEq] at h
    exact h ▸ Nat.le_refl _
  | cons w word ih =>
    cases cs with
    | nil => simp [afterWord?] at h
    | cons c cs =>
      simp only [afterWord?, Option.ite_none_right_eq_some] at h
      exact Nat.le_succ_of_le (ih h.2)

/-- What follows a string or a numeral is not longer than what follows its first character. -/
theorem length_of_literal? {c : Char} {cs rest : List Char} {t : Token} (h : literal? c cs = some (t, rest)) :
    rest.length ≤ cs.length := by
  unfold literal? at h
  split at h
  · exact Nat.le_of_lt (length_of_quoted? h)
  · split at h
    · exact Nat.le_of_lt (length_of_numeral? h)
    · simp only [Option.ite_none_right_eq_some] at h
      exact Nat.le_of_lt_succ (length_of_numeral? h.2)

/-- What follows a token is not longer than what follows its first character. -/
theorem length_of_token? {c : Char} {cs rest : List Char} {t : Token} (h : token? c cs = some (t, rest)) :
    rest.length ≤ cs.length := by
  unfold token? at h
  split at h
  · simp only [Option.some.injEq, Prod.mk.injEq] at h
    exact h.2 ▸ Nat.le_refl _
  · simp only [Option.map_eq_some_iff, Prod.mk.injEq] at h
    obtain ⟨_, hw, -, rfl⟩ := h
    exact length_of_afterWord? hw
  · exact length_of_literal? h

end TokenAux

/-- Whether a character may stand between tokens. -/
def isBlank (c : Char) : Bool := c = ' ' || c = '\n' || c = '\r' || c = '\t'

/-- The tokens of a text, or nothing where something in it is no token. -/
def tokens? (cs : List Char) : Option (List Token) :=
  match cs with
  | [] => some []
  | c :: rest =>
    if isBlank c then tokens? rest
    else
      match h : token? c rest with
      | none => none
      | some (t, after) =>
        have := TokenAux.length_of_token? h
        (tokens? after).map (t :: ·)
termination_by cs.length
decreasing_by all_goals (simp only [List.length_cons]; omega)

end Json
end PropertyGraph
