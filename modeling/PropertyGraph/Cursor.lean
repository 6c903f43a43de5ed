import PropertyGraph.Base64
import PropertyGraph.Error
import PropertyGraph.Json.Printer
import PropertyGraph.Json.Reader

/-!
# Cursors

Where a page of rows ends before the rows do, the store names the attributes of the last row it looked at: a
continuation key. A cursor is that key as a caller carries it: the key as a JSON object, its names in order, in base64.
Since the names are in order, a key has one cursor.
-/

namespace PropertyGraph

/-- What a query continues after: texts under the names of key attributes. -/
abbrev StartKey := Dict String

namespace Cursor

/-- A continuation key as a JSON object. -/
def keyJson (key : StartKey) : Json := .object (key.entries.map fun entry => (entry.1, .string entry.2))

/-- The cursor of a continuation key. -/
def encode (key : StartKey) : String := String.ofList (Base64.encode (keyJson key).render.toUTF8.data.toList)

/-- The texts under the names of an object, where every member is a text. -/
def texts? : List (String × Json) → Option (List (String × String))
  | [] => some []
  | (name, .string s) :: rest => (texts? rest).map ((name, s) :: ·)
  | _ => none

/-- The continuation key of a JSON value, where it is an object of texts. -/
def key? : Json → Option StartKey
  | .object members => (texts? members).map Dict.ofList
  | _ => none

/-- The continuation key of a cursor. -/
def decode (cursor : String) : Except GraphError StartKey :=
  match Base64.decode? cursor.toList with
  | none => .error (.cursor .notBase64)
  | some bytes =>
    match ((String.fromUTF8? ⟨bytes.toArray⟩).bind Json.parse?).bind key? with
    | none => .error (.cursor .notNames)
    | some key => .ok key

/-- The continuation key of a cursor that may be absent; the empty text counts as absent. -/
def decodeOptional : Option String → Except GraphError (Option StartKey)
  | none => .ok none
  | some cursor => if cursor = "" then .ok none else (decode cursor).map some

end Cursor

end PropertyGraph
