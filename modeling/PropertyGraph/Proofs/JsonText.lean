import PropertyGraph.Json.Printer
import PropertyGraph.Json.Reader

/-!
# JSON texts are read back

The text of a value without numbers is read back as that value, whatever form goes along, as long as its arrays and
objects nest no deeper than the reader allows. The proof goes over the tokens of the value: the text is cut into them
(`tokens?_chars`), and the reader puts the value together from them (`fold_tokensOf`).
-/

namespace PropertyGraph
namespace Json

mutual

/-- Whether a value has no number in it. -/
def isNumberless : Json → Bool
  | .number _ => false
  | .array items => itemsNumberless items
  | .object members => membersNumberless members
  | _ => true

/-- Whether no item has a number in it. -/
def itemsNumberless : List Json → Bool
  | [] => true
  | j :: rest => isNumberless j && itemsNumberless rest

/-- Whether no member has a number in it. -/
def membersNumberless : List (String × Json) → Bool
  | [] => true
  | (_, j) :: rest => isNumberless j && membersNumberless rest

end

mutual

/-- How deep the arrays and objects of a value nest. -/
def depth : Json → Nat
  | .array items => itemsDepth items + 1
  | .object members => membersDepth members + 1
  | _ => 0

/-- How deep the items of an array nest. -/
def itemsDepth : List Json → Nat
  | [] => 0
  | j :: rest => max (depth j) (itemsDepth rest)

/-- How deep the members of an object nest. -/
def membersDepth : List (String × Json) → Nat
  | [] => 0
  | (_, j) :: rest => max (depth j) (membersDepth rest)

end

mutual

/-- The tokens of a value. -/
def tokensOf : Json → List Token
  | .array items => .openArray :: itemTokens items
  | .object members => .openObject :: memberTokens members
  | j => [.scalar j]

/-- The tokens of the items of an array, with what separates and ends them. -/
def itemTokens : List Json → List Token
  | [] => [.closeArray]
  | [j] => tokensOf j ++ [.closeArray]
  | j :: rest => tokensOf j ++ .comma :: itemTokens rest

/-- The tokens of the members of an object, with what separates and ends them. -/
def memberTokens : List (String × Json) → List Token
  | [] => [.closeObject]
  | [(name, j)] => .scalar (.string name) :: .colon :: tokensOf j ++ [.closeObject]
  | (name, j) :: rest => .scalar (.string name) :: .colon :: tokensOf j ++ .comma :: memberTokens rest

end

/-! ## Strings -/

theorem hexDigit?_hexDigit {n : Nat} (h : n < 16) : Text.hexDigit? (hexDigit n) = some n := by
  have hall : ∀ n < 16, Text.hexDigit? (hexDigit n) = some n := by decide +kernel
  exact hall n h

/-- The escape of a control character is read as that character. -/
theorem stringBody_control {c : Char} (h : c < ' ') (rest : List Char) :
    stringBody ('\\' :: 'u' :: '0' :: '0' :: hexDigit (c.toNat / 16) :: hexDigit (c.toNat % 16) :: rest) =
      (stringBody rest).map fun (s, after) => (c :: s, after) := by
  have hc : c.toNat < 32 := h
  have hzero : Text.hexDigit? '0' = some 0 := by decide
  have hhigh : Text.hexDigit? (hexDigit (c.toNat / 16)) = some (c.toNat / 16) := hexDigit?_hexDigit (by omega)
  have hlow : Text.hexDigit? (hexDigit (c.toNat % 16)) = some (c.toNat % 16) := hexDigit?_hexDigit (by omega)
  have hunit : Text.hexUnit? '0' '0' (hexDigit (c.toNat / 16)) (hexDigit (c.toNat % 16)) = some c.toNat := by
    simp only [Text.hexUnit?, hzero, hhigh, hlow, Option.some.injEq]
    omega
  have hnotHigh : isHigh c.toNat = false := by
    simp only [isHigh, Bool.and_eq_false_iff, decide_eq_false_iff_not]
    omega
  have hnotLow : isLow c.toNat = false := by
    simp only [isLow, Bool.and_eq_false_iff, decide_eq_false_iff_not]
    omega
  rw [stringBody, hunit]
  simp only [hnotHigh, hnotLow, Bool.false_eq_true, if_false, Char.ofNat_toNat]

/-- The escape of a character that has a letter is read as that character. -/
theorem stringBody_escaped {letter c : Char} (hl : letter ≠ 'u') (h : escaped? letter = some c) (rest : List Char) :
    stringBody ('\\' :: letter :: rest) = (stringBody rest).map fun (s, after) => (c :: s, after) := by
  rw [stringBody]
  · rw [h]
  · intro a b d e more hu
    exact absurd hu hl

/-- A character that needs no escape is read as itself. -/
theorem stringBody_plain {c : Char} (hq : c ≠ '"') (hb : c ≠ '\\') (hc : ¬ c < ' ') (rest : List Char) :
    stringBody (c :: rest) = (stringBody rest).map fun (s, after) => (c :: s, after) := by
  rw [stringBody]
  · rw [if_neg hc]
  · exact hq
  · intro a b d e more hu
    exact absurd hu hb
  · intro d more hu
    exact absurd hu hb

/-- A character is read back from the way it stands in a string. -/
theorem stringBody_escape (c : Char) (rest : List Char) :
    stringBody (escape c ++ rest) = (stringBody rest).map fun (s, after) => (c :: s, after) := by
  unfold escape
  split
  next h =>
    subst h
    exact stringBody_escaped (by decide) (by decide) rest
  split
  next h =>
    subst h
    exact stringBody_escaped (by decide) (by decide) rest
  split
  next h =>
    subst h
    exact stringBody_escaped (by decide) (by decide) rest
  split
  next h =>
    subst h
    exact stringBody_escaped (by decide) (by decide) rest
  split
  next h =>
    subst h
    exact stringBody_escaped (by decide) (by decide) rest
  split
  next h =>
    subst h
    exact stringBody_escaped (by decide) (by decide) rest
  split
  next h =>
    subst h
    exact stringBody_escaped (by decide) (by decide) rest
  split
  next h => exact stringBody_control h rest
  next hq hb _ _ _ _ _ hc => exact stringBody_plain hq hb hc rest

/-- The characters of a string are read back up to its closing quote. -/
theorem stringBody_flatMap_escape (cs rest : List Char) :
    stringBody (cs.flatMap escape ++ '"' :: rest) = some (cs, rest) := by
  induction cs with
  | nil => rw [List.flatMap_nil, List.nil_append, stringBody]
  | cons c cs ih => rw [List.flatMap_cons, List.append_assoc, stringBody_escape, ih, Option.map_some]

theorem quoted?_flatMap_escape (s : String) (rest : List Char) :
    quoted? (s.toList.flatMap escape ++ '"' :: rest) = some (.scalar (.string s), rest) := by
  simp only [quoted?, stringBody_flatMap_escape, String.ofList_toList]

/-! ## The tokens of a text -/

/-- The first token of a text, and then the tokens of what follows it. -/
theorem tokens?_cons {c : Char} {cs after : List Char} {t : Token} (hb : isBlank c = false)
    (ht : token? c cs = some (t, after)) : tokens? (c :: cs) = (tokens? after).map (t :: ·) := by
  rw [tokens?, if_neg (by simp [hb])]
  split
  next h => simp [h] at ht
  next t' after' h =>
    rw [ht, Option.some.injEq, Prod.mk.injEq] at h
    obtain ⟨rfl, rfl⟩ := h
    rfl

/-- The token of a string, and then the tokens of what follows it. -/
theorem tokens?_quote (s : String) (rest : List Char) :
    tokens? (quote s ++ rest) = (tokens? rest).map (.scalar (.string s) :: ·) := by
  have hquote : quote s ++ rest = '"' :: (s.toList.flatMap escape ++ '"' :: rest) := by
    simp only [quote, List.cons_append, List.append_assoc, List.nil_append]
  rw [hquote]
  refine tokens?_cons (by decide) ?_
  exact quoted?_flatMap_escape s rest

theorem tokens?_punctuation {c : Char} {t : Token} (hb : isBlank c = false) (hp : punctuation? c = some t)
    (rest : List Char) : tokens? (c :: rest) = (tokens? rest).map (t :: ·) :=
  tokens?_cons hb (by simp only [token?, hp])

theorem itemChars_cons (j next : Json) (more : List Json) :
    itemChars (j :: next :: more) = chars j ++ ',' :: itemChars (next :: more) := by
  rw [itemChars]
  simp

theorem itemTokens_cons (j next : Json) (more : List Json) :
    itemTokens (j :: next :: more) = tokensOf j ++ .comma :: itemTokens (next :: more) := by
  rw [itemTokens]
  simp

theorem memberChars_cons (name : String) (j : Json) (next : String × Json) (more : List (String × Json)) :
    memberChars ((name, j) :: next :: more) = quote name ++ ':' :: (chars j ++ ',' :: memberChars (next :: more)) := by
  rw [memberChars]
  · simp
  · simp

/-- The tokens of several members: those of the first, a comma, those of the others. -/
theorem memberTokens_cons (name : String) (j : Json) (next : String × Json) (more : List (String × Json)) :
    memberTokens ((name, j) :: next :: more) =
      .scalar (.string name) :: .colon :: (tokensOf j ++ .comma :: memberTokens (next :: more)) := by
  rw [memberTokens]
  · simp
  · simp

mutual

/-- The text of a value without numbers is cut into the tokens of the value. -/
theorem tokens?_chars : ∀ (j : Json) (_ : j.isNumberless = true) (rest : List Char),
    tokens? (chars j ++ rest) = (tokens? rest).map (tokensOf j ++ ·)
  | .null, _, rest => tokens?_cons (t := .scalar .null) (by decide) rfl
  | .bool true, _, rest => tokens?_cons (t := .scalar (.bool true)) (by decide) rfl
  | .bool false, _, rest => tokens?_cons (t := .scalar (.bool false)) (by decide) rfl
  | .number n, h, _ => by simp [isNumberless] at h
  | .string s, _, rest => tokens?_quote s rest
  | .array items, h, rest => by
    rw [isNumberless] at h
    rw [chars, List.cons_append, tokens?_punctuation (by decide) rfl, tokens?_itemChars items h rest, tokensOf]
    cases tokens? rest <;> simp
  | .object members, h, rest => by
    rw [isNumberless] at h
    rw [chars, List.cons_append, tokens?_punctuation (by decide) rfl, tokens?_memberChars members h rest, tokensOf]
    cases tokens? rest <;> simp

/-- The text of the items of an array is cut into their tokens. -/
theorem tokens?_itemChars : ∀ (items : List Json) (_ : itemsNumberless items = true) (rest : List Char),
    tokens? (itemChars items ++ rest) = (tokens? rest).map (itemTokens items ++ ·)
  | [], _, rest => tokens?_punctuation (by decide) rfl rest
  | [j], h, rest => by
    rw [itemsNumberless, Bool.and_eq_true] at h
    rw [itemChars, List.append_assoc, tokens?_chars j h.1, List.singleton_append, tokens?_punctuation (by decide) rfl,
      itemTokens]
    cases tokens? rest <;> simp
  | j :: next :: more, h, rest => by
    rw [itemsNumberless, Bool.and_eq_true] at h
    rw [itemChars_cons, List.append_assoc, tokens?_chars j h.1, List.cons_append, tokens?_punctuation (by decide) rfl,
      tokens?_itemChars (next :: more) h.2 rest, itemTokens_cons]
    cases tokens? rest <;> simp

/-- The text of the members of an object is cut into their tokens. -/
theorem tokens?_memberChars :
    ∀ (members : List (String × Json)) (_ : membersNumberless members = true) (rest : List Char),
    tokens? (memberChars members ++ rest) = (tokens? rest).map (memberTokens members ++ ·)
  | [], _, rest => tokens?_punctuation (by decide) rfl rest
  | [(name, j)], h, rest => by
    rw [membersNumberless, Bool.and_eq_true] at h
    have htext : memberChars [(name, j)] ++ rest = quote name ++ ':' :: (chars j ++ '\x7d' :: rest) := by
      simp only [memberChars, List.append_assoc, List.cons_append, List.nil_append]
    rw [htext, tokens?_quote, tokens?_punctuation (by decide) rfl, tokens?_chars j h.1,
      tokens?_punctuation (by decide) rfl, memberTokens]
    cases tokens? rest <;> simp
  | (name, j) :: next :: more, h, rest => by
    rw [membersNumberless, Bool.and_eq_true] at h
    have htext : memberChars ((name, j) :: next :: more) ++ rest =
        quote name ++ ':' :: (chars j ++ ',' :: (memberChars (next :: more) ++ rest)) := by
      simp only [memberChars_cons, List.append_assoc, List.cons_append]
    rw [htext, tokens?_quote, tokens?_punctuation (by decide) rfl, tokens?_chars j h.1,
      tokens?_punctuation (by decide) rfl, tokens?_memberChars (next :: more) h.2 rest, memberTokens_cons]
    cases tokens? rest <;> simp

end

/-! ## Reading the tokens -/

/-- The first item of an array is read like any other value. -/
theorem fold_first (j : Json) (frames : List Frame) (form : Form) (more : List Token) :
    (tokensOf j ++ more).foldlM Reading.step (.first frames form) =
      (tokensOf j ++ more).foldlM Reading.step (.value (.array form [] :: frames) (form.item 0)) := by
  cases j <;> rfl

theorem fold_firstName (name : String) (frames : List Frame) (form : Form) (more : List Token) :
    (.scalar (.string name) :: more).foldlM Reading.step (.firstName frames form) =
      (.scalar (.string name) :: more).foldlM Reading.step (.nextName frames form []) := rfl

/-- A name and its colon are read. -/
theorem fold_name (name : String) (frames : List Frame) (form : Form) (done : List (String × Json))
    (more : List Token) :
    (.scalar (.string name) :: .colon :: more).foldlM Reading.step (.nextName frames form done) =
      more.foldlM Reading.step (.value (.object form done name :: frames) (form.member name)) := rfl

theorem mayOpen_of_lt {frames : List Frame} (form : Form) (h : frames.length < deepest) :
    mayOpen frames form = true := by
  simp only [mayOpen, decide_eq_true h, Bool.or_true]

mutual

/-- A value is put together from its tokens. -/
theorem fold_tokensOf : ∀ (j : Json) (frames : List Frame) (form : Form) (_ : frames.length + depth j ≤ deepest)
    (more : List Token),
    (tokensOf j ++ more).foldlM Reading.step (.value frames form) = more.foldlM Reading.step (.complete frames j)
  | .null, _, _, _, _ => rfl
  | .bool _, _, _, _, _ => rfl
  | .number _, _, _, _, _ => rfl
  | .string _, _, _, _, _ => rfl
  | .array items, frames, form, h, more => by
    rw [depth] at h
    have hopen : mayOpen frames form = true := mayOpen_of_lt form (by omega)
    have hstep : Reading.step (.value frames form) .openArray = some (.first frames form) := by
      simp only [Reading.step, Reading.begin, hopen, if_true]
    rw [tokensOf, List.cons_append, List.foldlM_cons, hstep]
    have hfold := fold_itemTokens items frames form [] (by omega) more
    match items, hfold with
    | [], _ => rfl
    | [j], hfold =>
      rw [itemTokens, List.append_assoc] at hfold ⊢
      exact (fold_first j frames form _).trans (hfold (by simp))
    | j :: next :: rest, hfold =>
      rw [itemTokens_cons, List.append_assoc] at hfold ⊢
      exact (fold_first j frames form _).trans (hfold (by simp))
  | .object members, frames, form, h, more => by
    rw [depth] at h
    have hopen : mayOpen frames form = true := mayOpen_of_lt form (by omega)
    have hstep : Reading.step (.value frames form) .openObject = some (.firstName frames form) := by
      simp only [Reading.step, Reading.begin, hopen, if_true]
    rw [tokensOf, List.cons_append, List.foldlM_cons, hstep]
    have hfold := fold_memberTokens members frames form [] (by omega) more
    match members, hfold with
    | [], _ => rfl
    | [(name, j)], hfold =>
      rw [memberTokens] at hfold ⊢
      exact (fold_firstName name frames form _).trans (hfold (by simp))
    | (name, j) :: next :: rest, hfold =>
      rw [memberTokens_cons] at hfold ⊢
      exact (fold_firstName name frames form _).trans (hfold (by simp))

/-- An array is put together from the tokens of the items that are not yet read. -/
theorem fold_itemTokens : ∀ (items : List Json) (frames : List Frame) (form : Form) (done : List Json)
    (_ : frames.length + 1 + itemsDepth items ≤ deepest) (more : List Token), items ≠ [] →
    (itemTokens items ++ more).foldlM Reading.step (.value (.array form done :: frames) (form.item done.length)) =
      more.foldlM Reading.step (.complete frames (.array (done.reverse ++ items)))
  | [], _, _, _, _, _, hne => absurd rfl hne
  | [j], frames, form, done, h, more, _ => by
    rw [itemsDepth] at h
    rw [itemTokens, List.append_assoc, fold_tokensOf j _ _ (by rw [List.length_cons]; omega)]
    simp [Reading.step]
  | j :: next :: rest, frames, form, done, h, more, _ => by
    rw [itemsDepth] at h
    rw [itemTokens_cons, List.append_assoc, fold_tokensOf j _ _ (by rw [List.length_cons]; omega)]
    have hfold := fold_itemTokens (next :: rest) frames form (j :: done) (by omega) more (by simp)
    rw [List.reverse_cons, List.append_assoc, List.singleton_append] at hfold
    exact hfold

/-- An object is put together from the tokens of the members that are not yet read. -/
theorem fold_memberTokens : ∀ (members : List (String × Json)) (frames : List Frame) (form : Form)
    (done : List (String × Json)) (_ : frames.length + 1 + membersDepth members ≤ deepest) (more : List Token),
    members ≠ [] →
    (memberTokens members ++ more).foldlM Reading.step (.nextName frames form done) =
      more.foldlM Reading.step (.complete frames (.object (done.reverse ++ members)))
  | [], _, _, _, _, _, hne => absurd rfl hne
  | [(name, j)], frames, form, done, h, more, _ => by
    rw [membersDepth] at h
    have htokens : memberTokens [(name, j)] ++ more =
        .scalar (.string name) :: .colon :: (tokensOf j ++ .closeObject :: more) := by
      simp only [memberTokens, List.cons_append, List.append_assoc, List.nil_append]
    rw [htokens, fold_name, fold_tokensOf j _ _ (by rw [List.length_cons]; omega)]
    simp [Reading.step]
  | (name, j) :: next :: rest, frames, form, done, h, more, _ => by
    rw [membersDepth] at h
    rw [memberTokens_cons, List.cons_append, List.cons_append, fold_name, List.append_assoc,
      fold_tokensOf j _ _ (by rw [List.length_cons]; omega)]
    have hfold := fold_memberTokens (next :: rest) frames form ((name, j) :: done) (by omega) more (by simp)
    rw [List.reverse_cons, List.append_assoc, List.singleton_append] at hfold
    exact hfold

end

/-- The text of a value without numbers that does not nest too deep is read back as that value, by every form. -/
theorem parseAs?_render {j : Json} (hn : j.isNumberless = true) (hd : j.depth ≤ deepest) (form : Form) :
    parseAs? form j.render = some j := by
  have htokens : tokens? (chars j) = some (tokensOf j) := by
    have h := tokens?_chars j hn []
    rw [List.append_nil, tokens?] at h
    simpa using h
  have hfold := fold_tokensOf j [] form (by simpa using hd) []
  rw [List.append_nil] at hfold
  rw [parseAs?, render, String.toList_ofList, htokens, Option.bind_some, ofTokens?, hfold]
  rfl

end Json
end PropertyGraph
