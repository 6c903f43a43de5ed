import PropertyGraph.Proofs.Ascending

/-!
# The order of texts is that of their bytes

Texts are compared character by character, their encodings byte by byte, and both comparisons come out alike: a greater
character has the greater encoding, whatever comes after the two (`ByteOrder.encoded_append_lt`).
-/

namespace PropertyGraph

namespace ByteOrder

/-- The bytes of a text. -/
def bytes (s : String) : List UInt8 := s.toUTF8.data.toList

/-- The bytes of a text are those of its characters. -/
theorem bytes_eq (s : String) : bytes s = s.toList.flatMap String.utf8EncodeChar := by
  have h : s.toUTF8 = s.toList.utf8Encode := by
    rw [String.toUTF8_eq_toByteArray, ← String.toByteArray_ofList, String.ofList_toList]
  rw [bytes, h, List.utf8Encode]
  exact List.toList_data_toByteArray

/-- Of two characters the greater one has the greater encoding, whatever comes after the two: for each pair of lengths
the first byte in which they differ decides. -/
theorem encoded_append_lt {c d : Char} (h : c < d) (rest rest' : List UInt8) :
    String.utf8EncodeChar c ++ rest < String.utf8EncodeChar d ++ rest' := by
  have hlt : c.val.toNat < d.val.toNat := h
  have hc : c.val.toNat < 1114112 := by have := c.valid; omega
  have hd : d.val.toNat < 1114112 := by have := d.valid; omega
  unfold String.utf8EncodeChar
  generalize c.val.toNat = v at hlt hc
  generalize d.val.toNat = w at hlt hd
  dsimp only
  repeat' split
  all_goals
    simp (disch := omega) only [List.cons_append, List.nil_append, List.cons_lt_cons_iff, UInt8.lt_iff_toNat_lt,
      ← UInt8.toNat_inj, UInt8.toNat_ofNat', Nat.mod_eq_of_lt]
    omega

/-- The smaller of two texts has the smaller bytes. -/
theorem bytes_lt {a b : String} (h : a < b) : bytes a < bytes b := by
  rw [bytes_eq, bytes_eq]
  have hlist : a.toList < b.toList := h
  generalize a.toList = as at hlist
  generalize b.toList = bs at hlist
  induction as generalizing bs with
  | nil =>
    cases bs with
    | nil => exact absurd hlist (Std.lt_irrefl)
    | cons d rest =>
      rw [List.flatMap_nil, List.flatMap_cons]
      cases hd : String.utf8EncodeChar d with
      | nil => exact absurd hd String.utf8EncodeChar_ne_nil
      | cons x more => exact List.nil_lt_cons ..
  | cons c rest ih =>
    cases bs with
    | nil => exact absurd hlist (List.not_lt_nil _)
    | cons d rest' =>
      rw [List.flatMap_cons, List.flatMap_cons]
      rcases List.cons_lt_cons_iff.mp hlist with hcd | ⟨rfl, hrest⟩
      · exact encoded_append_lt hcd _ _
      · exact List.append_left_lt (ih _ hrest)

/-- Texts are ordered as their bytes are. -/
theorem lt_iff_bytes_lt {a b : String} : a < b ↔ bytes a < bytes b := by
  refine ⟨bytes_lt, fun h => Classical.byContradiction fun hab => ?_⟩
  by_cases hba : b < a
  · exact Std.lt_irrefl (Std.lt_trans h (bytes_lt hba))
  · exact Std.lt_irrefl (SortedAux.eq_of_not_lt hab hba ▸ h)

end ByteOrder

end PropertyGraph
