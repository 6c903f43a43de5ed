import Mathlib.Logic.Function.Defs
import PropertyGraph.Cursor
import PropertyGraph.Proofs.Ascending
import PropertyGraph.Proofs.Base64
import PropertyGraph.Proofs.JsonText

/-!
# Cursors are read back

A cursor is read back as the continuation key that it was made of, whatever texts the key holds, and no cursor is the
empty text, which would count as absent. So a caller that hands a cursor on continues exactly where the page before it
ended. A text that a caller made up counts as well where it is the base64 text of some JSON object of texts, and
nothing else does (`decode_eq_ok_iff`).
-/

namespace PropertyGraph

namespace Cursor

theorem texts?_entries (entries : List (String × String)) :
    texts? (entries.map fun entry => (entry.1, .string entry.2)) = some entries := by
  induction entries with
  | nil => rfl
  | cons entry rest ih => rw [List.map_cons, texts?, ih, Option.map_some]

theorem key?_keyJson (key : StartKey) : key? (keyJson key) = some key := by
  rw [keyJson, key?, texts?_entries, Option.map_some, Dict.ofList_entries]

theorem keyJson_isNumberless (key : StartKey) : (keyJson key).isNumberless = true := by
  rw [keyJson, Json.isNumberless]
  induction key.entries with
  | nil => rfl
  | cons entry rest ih => rw [List.map_cons, Json.membersNumberless, ih]; rfl

theorem keyJson_depth (key : StartKey) : (keyJson key).depth = 1 := by
  rw [keyJson, Json.depth, Nat.add_eq_right]
  induction key.entries with
  | nil => rfl
  | cons entry rest ih => rw [List.map_cons, Json.membersDepth, ih]; rfl

theorem fromUTF8?_toUTF8 (s : String) : String.fromUTF8? ⟨s.toUTF8.data.toList.toArray⟩ = some s := by
  have hvalid : s.toUTF8.IsValidUTF8 := s.isValidUTF8
  rw [Array.toArray_toList, String.fromUTF8?, dif_pos hvalid]
  rfl

/-- A cursor is read back as the key that it was made of. -/
theorem decode_encode (key : StartKey) : decode (encode key) = .ok key := by
  have hjson : Json.parse? (keyJson key).render = some (keyJson key) :=
    Json.parseAs?_render (keyJson_isNumberless key) (by rw [keyJson_depth]; decide) .whole
  rw [decode, encode, String.toList_ofList, Base64.decode?_encode]
  simp only [fromUTF8?_toUTF8, Option.bind_some, hjson, key?_keyJson]

theorem toUTF8_ne_nil {s : String} (h : s ≠ "") : s.toUTF8.data.toList ≠ [] := by
  intro hbytes
  have hs := fromUTF8?_toUTF8 s
  have hempty := fromUTF8?_toUTF8 ""
  rw [hbytes] at hs
  exact h (Option.some.inj (hs.symm.trans hempty))

/-- No cursor is the empty text. -/
theorem encode_ne_empty (key : StartKey) : encode key ≠ "" := by
  have hrender : (keyJson key).render ≠ "" := by
    rw [keyJson, Json.render, Json.chars]
    intro h
    exact List.cons_ne_nil _ _ (String.ofList_eq_empty_iff.mp h)
  intro h
  exact Base64.encode_ne_nil (toUTF8_ne_nil hrender) (String.ofList_eq_empty_iff.mp h)

/-- A cursor that is handed on counts as the key that it was made of. -/
theorem decodeOptional_encode (key : StartKey) : decodeOptional (some (encode key)) = .ok (some key) := by
  rw [decodeOptional, if_neg (encode_ne_empty key), decode_encode]
  rfl

/-! ## What is read as a key -/

/-- Members have texts under their names exactly where they stand for entries. -/
theorem texts?_eq_some_iff {members : List (String × Json)} {entries : List (String × String)} :
    texts? members = some entries ↔ members = entries.map fun entry => (entry.1, .string entry.2) := by
  constructor
  · intro h
    induction members generalizing entries with
    | nil => rw [← Option.some.inj h, List.map_nil]
    | cons member rest ih =>
      obtain ⟨name, j⟩ := member
      cases j with
      | string s =>
        obtain ⟨others, hothers, rfl⟩ := Option.map_eq_some_iff.mp h
        rw [List.map_cons, ← ih hothers]
      | _ => simp [texts?] at h
  · rintro rfl
    exact texts?_entries entries

/-- A JSON value stands for a key exactly where it is an object of texts of which the key is the map. -/
theorem key?_eq_some_iff {j : Json} {key : StartKey} : key? j = some key ↔
    ∃ entries : List (String × String), j = .object (entries.map fun entry => (entry.1, .string entry.2)) ∧
      Dict.ofList entries = key := by
  cases j with
  | object members =>
    rw [key?, Option.map_eq_some_iff]
    simp only [texts?_eq_some_iff, Json.object.injEq]
  | _ => simp [key?]

/-- Bytes are the UTF-8 form of a text exactly where they are read as it. -/
theorem fromUTF8?_eq_some_iff {bytes : List UInt8} {text : String} :
    String.fromUTF8? ⟨bytes.toArray⟩ = some text ↔ text.toUTF8.data.toList = bytes := by
  constructor
  · intro h
    rw [String.fromUTF8?] at h
    split at h
    · rw [← Option.some.inj h]
      rfl
    · simp at h
  · rintro rfl
    exact fromUTF8?_toUTF8 text

/-- A text is read as a key exactly where it is the base64 text of a JSON text that stands for the key. -/
theorem decode_eq_ok_iff {cursor : String} {key : StartKey} :
    decode cursor = .ok key ↔
      ∃ text : String, cursor = String.ofList (Base64.encode text.toUTF8.data.toList) ∧
        (Json.parse? text).bind key? = some key := by
  have hread : decode cursor = .ok key ↔ ((Base64.decode? cursor.toList).bind fun bytes =>
      ((String.fromUTF8? ⟨bytes.toArray⟩).bind Json.parse?).bind key?) = some key := by
    rw [decode]
    split
    next hnone => simp [hnone]
    next bytes hbytes =>
      rw [hbytes, Option.bind_some]
      split
      next hnone => simp [hnone]
      next found hfound => rw [hfound, Except.ok.injEq, Option.some.injEq]
  rw [hread]
  simp only [Option.bind_assoc, Option.bind_eq_some_iff, Base64.decode?_eq_some_iff, fromUTF8?_eq_some_iff]
  constructor
  · rintro ⟨_, hcursor, text, rfl, hkey⟩
    exact ⟨text, by rw [← hcursor, String.ofList_toList], hkey⟩
  · rintro ⟨text, rfl, hkey⟩
    exact ⟨_, String.toList_ofList, text, rfl, hkey⟩

/-- What cursors stand for. (1) The cursor of a key is read back as that key, also where a cursor may be absent;
written again, what was read has the same cursor; and the cursor is not the empty text, which counts as absent. (2)
Different keys have different cursors. (3) A text is read as a key exactly where it is the base64 text of the UTF-8
form of a JSON text that is an object of texts, of which the key is the map. -/
theorem cursors_stand_for_keys :
    (∀ key : StartKey, decode (encode key) = .ok key ∧ decodeOptional (some (encode key)) = .ok (some key) ∧
      (decode (encode key)).map encode = .ok (encode key) ∧ encode key ≠ "") ∧
    decodeOptional (some "") = .ok none ∧
    Function.Injective encode ∧
    ∀ (cursor : String) (key : StartKey), decode cursor = .ok key ↔
      ∃ (text : String) (entries : List (String × String)),
        cursor = String.ofList (Base64.encode text.toUTF8.data.toList) ∧
        Json.parse? text = some (.object (entries.map fun entry => (entry.1, .string entry.2))) ∧
        Dict.ofList entries = key := by
  refine ⟨fun key => ⟨decode_encode key, decodeOptional_encode key, ?_, encode_ne_empty key⟩, rfl,
    fun key other h => ?_,
    fun cursor key => ?_⟩
  · rw [decode_encode]
    rfl
  · exact Except.ok.inj ((decode_encode key).symm.trans (h ▸ decode_encode other))
  · rw [decode_eq_ok_iff]
    simp only [Option.bind_eq_some_iff, key?_eq_some_iff]
    constructor
    · rintro ⟨text, hcursor, _, hparse, entries, rfl, hkey⟩
      exact ⟨text, entries, hcursor, hparse, hkey⟩
    · rintro ⟨text, entries, hcursor, hparse, hkey⟩
      exact ⟨text, hcursor, _, hparse, entries, rfl, hkey⟩

/-- The key of a text with a line break, a quote and an accent, as a cursor. -/
example : encode (Dict.ofList [("id", "eve\n\"é")]) = "eyJpZCI6ImV2ZVxuXCLDqSJ9" := by decide +kernel

end Cursor

end PropertyGraph
