/-!
# What is read of a text

A structure ignores the members that it does not name. What stands in an ignored place of a text need only be well
formed: its strings and numerals need not stand for a value, and there is no limit to its depth. A form says which
places of a text are read.
-/

namespace PropertyGraph
namespace Json

/-- What is read of a value. -/
inductive Form where
  /-- All of it. -/
  | whole
  /-- Nothing. -/
  | ignored
  /-- Of an array, the same of each item. -/
  | items (form : Form)
  /-- Of an object, what is said of each name; in an array, the names stand for the places. -/
  | members (named : List (String × Form)) (others : Form)

namespace Form

/-- Whether nothing is read. -/
def isIgnored : Form → Bool
  | .ignored => true
  | _ => false

/-- What is read of a member of an object. -/
def member (name : String) : Form → Form
  | .ignored => .ignored
  | .members named others => (named.lookup name).getD others
  | _ => .whole

/-- What is read of an item of an array, by its place. -/
def item (place : Nat) : Form → Form
  | .ignored => .ignored
  | .items form => form
  | .members named _ => (named[place]?.map Prod.snd).getD .whole
  | .whole => .whole

@[simp] theorem member_whole (name : String) : member name .whole = .whole := rfl

@[simp] theorem item_whole (place : Nat) : item place .whole = .whole := rfl

@[simp] theorem member_ignored (name : String) : member name .ignored = .ignored := rfl

@[simp] theorem item_ignored (place : Nat) : item place .ignored = .ignored := rfl

end Form
end Json
end PropertyGraph
