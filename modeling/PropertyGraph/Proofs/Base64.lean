import PropertyGraph.Base64

/-!
# Base64 is read back

What was written in base64 is read back as it was, byte by byte. The padding character is none of the alphabet, so that
a text says by itself how long its last group is. Nothing else is read: the text of some bytes is the only one that
stands for them (`decode?_eq_some_iff`).
-/

namespace PropertyGraph
namespace Base64

theorem value?_symbol {n : Nat} (h : n < 64) : value? (symbol n) = some n := by
  have hall : ∀ n < 64, value? (symbol n) = some n := by decide +kernel
  exact hall n h

theorem symbol_ne_padding {n : Nat} (h : n < 64) : symbol n ≠ '=' := by
  have hall : ∀ n < 64, symbol n ≠ '=' := by decide +kernel
  exact hall n h

/-- A group that does not end with the padding is read as a whole group. -/
theorem decode?_group {a b c d : Char} (rest : List Char) (hd : d ≠ '=') :
    decode? (a :: b :: c :: d :: rest) =
      match group? a b c d, decode? rest with
      | some bytes, some more => some (bytes ++ more)
      | _, _ => none := by
  have hone : c = '=' → d = '=' → rest = [] → False := fun _ h _ => hd h
  have htwo : d = '=' → rest = [] → False := fun h _ => hd h
  exact decode?.eq_4 a b c d rest hone htwo

/-- The byte of a group with two characters of padding. -/
theorem lastOne?_symbols (a : UInt8) : lastOne? (symbol (a.toNat / 4)) (symbol (a.toNat % 4 * 16)) = some [a] := by
  have ha := a.toNat_lt
  have h₁ : value? (symbol (a.toNat / 4)) = some (a.toNat / 4) := value?_symbol (by omega)
  have h₂ : value? (symbol (a.toNat % 4 * 16)) = some (a.toNat % 4 * 16) := value?_symbol (by omega)
  have hbyte : a.toNat / 4 * 4 + a.toNat % 4 * 16 / 16 = a.toNat := by omega
  have hunused : a.toNat % 4 * 16 % 16 = 0 := by omega
  simp only [lastOne?, h₁, h₂, hunused, if_true, hbyte, UInt8.ofNat_toNat]

/-- The bytes of a group with one character of padding. -/
theorem lastTwo?_symbols (a b : UInt8) :
    lastTwo? (symbol (a.toNat / 4)) (symbol (a.toNat % 4 * 16 + b.toNat / 16)) (symbol (b.toNat % 16 * 4)) =
      some [a, b] := by
  have ha := a.toNat_lt
  have hb := b.toNat_lt
  have h₁ : value? (symbol (a.toNat / 4)) = some (a.toNat / 4) := value?_symbol (by omega)
  have h₂ : value? (symbol (a.toNat % 4 * 16 + b.toNat / 16)) = some (a.toNat % 4 * 16 + b.toNat / 16) :=
    value?_symbol (by omega)
  have h₃ : value? (symbol (b.toNat % 16 * 4)) = some (b.toNat % 16 * 4) := value?_symbol (by omega)
  have hfirst : a.toNat / 4 * 4 + (a.toNat % 4 * 16 + b.toNat / 16) / 16 = a.toNat := by omega
  have hsecond : (a.toNat % 4 * 16 + b.toNat / 16) % 16 * 16 + b.toNat % 16 * 4 / 4 = b.toNat := by omega
  have hunused : b.toNat % 16 * 4 % 4 = 0 := by omega
  simp only [lastTwo?, h₁, h₂, h₃, hunused, if_true, hfirst, hsecond, UInt8.ofNat_toNat]

/-- The bytes of a whole group. -/
theorem group?_symbols (a b c : UInt8) :
    group? (symbol (a.toNat / 4)) (symbol (a.toNat % 4 * 16 + b.toNat / 16)) (symbol (b.toNat % 16 * 4 + c.toNat / 64))
      (symbol (c.toNat % 64)) = some [a, b, c] := by
  have ha := a.toNat_lt
  have hb := b.toNat_lt
  have hc := c.toNat_lt
  have h₁ : value? (symbol (a.toNat / 4)) = some (a.toNat / 4) := value?_symbol (by omega)
  have h₂ : value? (symbol (a.toNat % 4 * 16 + b.toNat / 16)) = some (a.toNat % 4 * 16 + b.toNat / 16) :=
    value?_symbol (by omega)
  have h₃ : value? (symbol (b.toNat % 16 * 4 + c.toNat / 64)) = some (b.toNat % 16 * 4 + c.toNat / 64) :=
    value?_symbol (by omega)
  have h₄ : value? (symbol (c.toNat % 64)) = some (c.toNat % 64) := value?_symbol (by omega)
  have hfirst : a.toNat / 4 * 4 + (a.toNat % 4 * 16 + b.toNat / 16) / 16 = a.toNat := by omega
  have hsecond : (a.toNat % 4 * 16 + b.toNat / 16) % 16 * 16 + (b.toNat % 16 * 4 + c.toNat / 64) / 4 = b.toNat := by
    omega
  have hthird : (b.toNat % 16 * 4 + c.toNat / 64) % 4 * 64 + c.toNat % 64 = c.toNat := by omega
  simp only [group?, h₁, h₂, h₃, h₄, hfirst, hsecond, hthird, UInt8.ofNat_toNat]

/-- What was written is read back. -/
theorem decode?_encode (bytes : List UInt8) : decode? (encode bytes) = some bytes := by
  induction bytes using encode.induct with
  | case1 => rfl
  | case2 a =>
    rw [encode, decode?]
    exact lastOne?_symbols a
  | case3 a b =>
    have hlast : symbol (b.toNat % 16 * 4) ≠ '=' := symbol_ne_padding (by omega)
    rw [encode, decode?]
    · exact lastTwo?_symbols a b
    · exact hlast
  | case4 a b c rest ih =>
    have hlast : symbol (c.toNat % 64) ≠ '=' := symbol_ne_padding (by omega)
    rw [encode, decode?_group _ hlast, group?_symbols, ih]
    rfl

theorem encode_ne_nil {bytes : List UInt8} (h : bytes ≠ []) : encode bytes ≠ [] := by
  intro hempty
  have hread := decode?_encode bytes
  rw [hempty, decode?, Option.some.injEq] at hread
  exact h hread.symm

/-! ## Only what was written is read -/

/-- A character with a value is the character of that value. -/
theorem symbol_of_value? {c : Char} {n : Nat} (h : value? c = some n) : n < 64 ∧ symbol n = c := by
  obtain ⟨hlt, hc, -⟩ := List.findIdx?_eq_some_iff_getElem.mp h
  refine ⟨hlt, ?_⟩
  rw [symbol, List.getD_eq_getElem?_getD, List.getElem?_eq_getElem hlt, Option.getD_some]
  exact eq_of_beq hc

theorem toNat_byte {n : Nat} (h : n < 256) : (UInt8.ofNat n).toNat = n := by
  rw [UInt8.toNat_ofNat']
  exact Nat.mod_eq_of_lt h

/-- A last group with two characters of padding is what is written for its byte. -/
theorem encode_of_lastOne? {a b : Char} {bytes : List UInt8} (h : lastOne? a b = some bytes) :
    encode bytes = [a, b, '=', '='] := by
  unfold lastOne? at h
  split at h
  next m n hm hn =>
    obtain ⟨hunused, h⟩ := Option.ite_none_right_eq_some.mp h
    obtain ⟨hm, rfl⟩ := symbol_of_value? hm
    obtain ⟨hn, rfl⟩ := symbol_of_value? hn
    have hbyte : (UInt8.ofNat (m * 4 + n / 16)).toNat = m * 4 + n / 16 := toNat_byte (by omega)
    have h₁ : (m * 4 + n / 16) / 4 = m := by omega
    have h₂ : (m * 4 + n / 16) % 4 * 16 = n := by omega
    rw [← Option.some.inj h, encode, hbyte, h₁, h₂]
  · simp at h

/-- A last group with one character of padding is what is written for its bytes. -/
theorem encode_of_lastTwo? {a b c : Char} {bytes : List UInt8} (h : lastTwo? a b c = some bytes) :
    encode bytes = [a, b, c, '='] := by
  unfold lastTwo? at h
  split at h
  next l m n hl hm hn =>
    obtain ⟨hunused, h⟩ := Option.ite_none_right_eq_some.mp h
    obtain ⟨hl, rfl⟩ := symbol_of_value? hl
    obtain ⟨hm, rfl⟩ := symbol_of_value? hm
    obtain ⟨hn, rfl⟩ := symbol_of_value? hn
    have hfirst : (UInt8.ofNat (l * 4 + m / 16)).toNat = l * 4 + m / 16 := toNat_byte (by omega)
    have hsecond : (UInt8.ofNat (m % 16 * 16 + n / 4)).toNat = m % 16 * 16 + n / 4 := toNat_byte (by omega)
    have h₁ : (l * 4 + m / 16) / 4 = l := by omega
    have h₂ : (l * 4 + m / 16) % 4 * 16 + (m % 16 * 16 + n / 4) / 16 = m := by omega
    have h₃ : (m % 16 * 16 + n / 4) % 16 * 4 = n := by omega
    rw [← Option.some.inj h, encode, hfirst, hsecond, h₁, h₂, h₃]
  · simp at h

/-- A whole group is what is written for its bytes. -/
theorem encode_of_group? {a b c d : Char} {bytes : List UInt8} (h : group? a b c d = some bytes) (more : List UInt8) :
    encode (bytes ++ more) = a :: b :: c :: d :: encode more := by
  unfold group? at h
  split at h
  next k l m n hk hl hm hn =>
    obtain ⟨hk, rfl⟩ := symbol_of_value? hk
    obtain ⟨hl, rfl⟩ := symbol_of_value? hl
    obtain ⟨hm, rfl⟩ := symbol_of_value? hm
    obtain ⟨hn, rfl⟩ := symbol_of_value? hn
    have hfirst : (UInt8.ofNat (k * 4 + l / 16)).toNat = k * 4 + l / 16 := toNat_byte (by omega)
    have hsecond : (UInt8.ofNat (l % 16 * 16 + m / 4)).toNat = l % 16 * 16 + m / 4 := toNat_byte (by omega)
    have hthird : (UInt8.ofNat (m % 4 * 64 + n)).toNat = m % 4 * 64 + n := toNat_byte (by omega)
    have h₁ : (k * 4 + l / 16) / 4 = k := by omega
    have h₂ : (k * 4 + l / 16) % 4 * 16 + (l % 16 * 16 + m / 4) / 16 = l := by omega
    have h₃ : (l % 16 * 16 + m / 4) % 16 * 4 + (m % 4 * 64 + n) / 64 = m := by omega
    have h₄ : (m % 4 * 64 + n) % 64 = n := by omega
    rw [← Option.some.inj h]
    simp only [List.cons_append, List.nil_append]
    rw [encode, hfirst, hsecond, hthird, h₁, h₂, h₃, h₄]
  · simp at h

/-- What is read is what was written. -/
theorem encode_of_decode? {cs : List Char} {bytes : List UInt8} (h : decode? cs = some bytes) : encode bytes = cs := by
  fun_induction decode? cs generalizing bytes with
  | case1 => exact Option.some.inj h ▸ rfl
  | case2 a b => exact encode_of_lastOne? h
  | case3 a b c _ => exact encode_of_lastTwo? h
  | case4 a b c d rest _ _ first others hrest hfirst ih =>
    rw [← Option.some.inj h, encode_of_group? hfirst, ih hrest]
  | case5 => simp at h
  | case6 => simp at h

theorem decode?_eq_some_iff {cs : List Char} {bytes : List UInt8} : decode? cs = some bytes ↔ cs = encode bytes :=
  ⟨fun h => (encode_of_decode? h).symm, fun h => h ▸ decode?_encode bytes⟩

end Base64
end PropertyGraph
