import PropertyGraph.Error
import PropertyGraph.Sorted
import PropertyGraph.Toml.Basic

/-!
# What stands in a layer of settings

A layer of settings is a tree of tables, from a document or from the environment. Every content remembers where it came
from, because a fault is reported by the place as its author wrote it. Texts and integers are the only scalars that
some setting takes; booleans and fractions are kept apart from them without their value.
-/

namespace PropertyGraph

/-- Where a content came from. -/
inductive Origin where
  | document | environment
  deriving DecidableEq, Repr

/-- What stands at a place of a layer of settings. -/
inductive Content where
  | text (origin : Origin) (s : String)
  | integer (origin : Origin) (n : Int)
  /-- A boolean or a fraction. -/
  | other (origin : Origin)
  | array (origin : Origin) (items : List Content)
  | table (origin : Origin) (entries : List (String × Content))

namespace Content

/-- Where a content came from. -/
def origin : Content → Origin
  | .text o _ => o
  | .integer o _ => o
  | .other o => o
  | .array o _ => o
  | .table o _ => o

mutual

/-- A value of a document. -/
def ofToml : Toml → Content
  | .text s => .text .document s
  | .integer n => .integer .document n.toInt
  | .real _ => .other .document
  | .boolean _ => .other .document
  | .array items => .array .document (ofTomlItems items)
  | .table entries => .table .document (ofTomlEntries entries)

/-- The items of an array of a document. -/
def ofTomlItems : List Toml → List Content
  | [] => []
  | item :: rest => ofToml item :: ofTomlItems rest

/-- The entries of a table of a document. -/
def ofTomlEntries : List (String × Toml) → List (String × Content)
  | [] => []
  | (name, value) :: rest => (name, ofToml value) :: ofTomlEntries rest

end

/-- The entries with one more under its name; what is there already is joined with it by `join`. -/
def addWith (join : Content → Content) (name : String) (c : Content) : List (String × Content) → List (String × Content)
  | [] => [(name, c)]
  | (found, old) :: rest => if found = name then (name, join old) :: rest else (found, old) :: addWith join name c rest

mutual

/-- The upper content laid over the lower one: tables are merged entry by entry, anything else is replaced. -/
def laidOver (upper lower : Content) : Content :=
  match upper, lower with
  | .table o entries, .table _ below => .table o (entriesOver entries below)
  | upper, _ => upper

/-- Entries laid over others. -/
def entriesOver : List (String × Content) → List (String × Content) → List (String × Content)
  | [], below => below
  | (name, c) :: rest, below => entriesOver rest (addWith (fun old => laidOver c old) name c below)

end

/-- A place as its author wrote it: below `default` in a document, in capitals in the environment. -/
def placeName (origin : Origin) (path : List String) : String :=
  match origin with
  | .document => ".".intercalate ("default" :: path)
  | .environment => ".".intercalate (path.map String.toUpper)

/-- The fault of a content that its place does not take. -/
def fault {α : Type} (origin : Origin) (path : List String) : Except GraphError α :=
  .error (.settings (.badContent (placeName origin path)))

/-- A text. -/
def readText (path : List String) : Content → Except GraphError String
  | .text _ s => .ok s
  | c => fault c.origin path

/-- An integer that is not negative and at most `most`. -/
def readNat (most : Nat) (path : List String) : Content → Except GraphError Nat
  | .integer o n => if 0 ≤ n ∧ n ≤ (most : Int) then .ok n.toNat else fault o path
  | c => fault c.origin path

/-- An integer of the signed 64-bit range. -/
def readInt (path : List String) : Content → Except GraphError Int64
  | .integer o n =>
    if Int64.minValue.toInt ≤ n ∧ n ≤ Int64.maxValue.toInt then .ok (Int64.ofInt n) else fault o path
  | c => fault c.origin path

/-- One of the names of a choice; a table is refused at its first entry, where it has one. -/
def readChoice {α : Type} (options : List (String × α)) (path : List String) : Content → Except GraphError α
  | .text o s =>
    match options.lookup s with
    | some a => .ok a
    | none => fault o path
  | .table o entries =>
    match (sortedBy Prod.fst entries).head? with
    | some (name, c) => fault c.origin (path ++ [name])
    | none => fault o path
  | c => fault c.origin path

/-- An item of a section: its name, and what its content makes of the section. -/
structure Item (α : Type) where
  name : String
  read : List String → Content → α → Except GraphError α

/-- Reads a section on top of what it has without: from a table by the names, in their order, or from an array by the
places. Other entries are ignored. -/
def readSection {α : Type} (items : List (Item α)) (path : List String) (c : Content) (given : α) :
    Except GraphError α :=
  match c with
  | .table _ entries =>
    (sortedBy Prod.fst entries).foldlM
      (fun read (name, content) =>
        match items.find? (·.name = name) with
        | some item => item.read (path ++ [name]) content read
        | none => .ok read)
      given
  | .array _ contents =>
    ((items.zip contents).zipIdx).foldlM
      (fun read ((item, content), place) => item.read (path ++ [toString place]) content read)
      given
  | c => fault c.origin path

end Content

end PropertyGraph
