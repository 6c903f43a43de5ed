import PropertyGraph.Schema.Wire
import PropertyGraph.Settings.Basic
import PropertyGraph.Text.Alphanumeric
import PropertyGraph.Text.Blank

/-!
# What is logged

A log filter is a list of directives, each of which sets a level for a target or for everything else. The more specific
directive stands first: a longer target before a shorter one, and the directive for everything else last. Of two
directives for one target the later one counts. The environment may override the level in the settings, unless what it
says is no filter.
-/

namespace PropertyGraph

/-- How much is logged. -/
inductive LogLevel where
  | off | error | warn | info | debug | trace
  deriving DecidableEq, Repr

namespace LogLevel

/-- The levels by their names, from nothing to everything. -/
def options : List (String × LogLevel) :=
  [("off", .off), ("error", .error), ("warn", .warn), ("info", .info), ("debug", .debug), ("trace", .trace)]

/-- The name of a level. -/
def name : LogLevel → String
  | .off => "off"
  | .error => "error"
  | .warn => "warn"
  | .info => "info"
  | .debug => "debug"
  | .trace => "trace"

/-- A level by its place among the levels, in decimal digits, or by its name in letters of either case. -/
def ofName? (cs : List Char) : Option LogLevel :=
  let digits := if cs.head? = some '+' then cs.tail else cs
  if digits.isEmpty ∨ ¬ digits.all Char.isDigit then
    options.lookup (String.ofList (cs.map lowerAscii))
  else
    (options[digits.foldl (fun n c => n * 10 + (c.toNat - '0'.toNat)) 0]?).map Prod.snd

end LogLevel

/-- A level for a target, or for everything that no directive has as its target. -/
structure Directive where
  target : Option String
  level : LogLevel
  deriving DecidableEq, Repr

namespace Directive

/-- Whether a character may begin a directive. -/
def isFirst (c : Char) : Bool := Text.isAlphanumeric c || c = '-' || c = ':' || c = '_'

/-- A directive: a level alone, a target alone for everything on it, or a target, a sign of equality and a level, which
may be missing for everything. Blanks count: with blanks around it, a level is the name of a target, and a target with
a level must not begin with one. -/
def ofText? (cs : List Char) : Option Directive :=
  let inner := Text.trimmed cs
  if ¬ (inner.head?.map isFirst).getD false ∨ inner.contains '[' then none
  else
    let name := cs.takeWhile (· ≠ '=')
    match cs.dropWhile (· ≠ '=') with
    | [] =>
      match LogLevel.ofName? name with
      | some level => some ⟨none, level⟩
      | none => some ⟨some (String.ofList name), .trace⟩
    | _ :: level =>
      if cs.head? ≠ inner.head? then none
      else if level.isEmpty then some ⟨some (String.ofList name), .trace⟩
      else (LogLevel.ofName? level).map fun level => ⟨some (String.ofList name), level⟩

/-- Whether a directive is more specific than another. Of two targets of one length the later in the alphabet is. -/
def isMoreSpecific (a b : Directive) : Bool :=
  match a.target, b.target with
  | some _, none => true
  | some s, some t => t.utf8ByteSize < s.utf8ByteSize || (t.utf8ByteSize = s.utf8ByteSize && t < s)
  | none, _ => false

/-- A directive as a text. -/
def text (d : Directive) : String :=
  match d.target with
  | some target => target ++ "=" ++ d.level.name
  | none => d.level.name

end Directive

/-- Directives, the most specific first. -/
abbrev LogFilter := List Directive

namespace LogFilter

/-- A filter with one more directive, at its place. -/
def add (filter : LogFilter) (d : Directive) : LogFilter :=
  match filter with
  | [] => [d]
  | e :: rest =>
    if d.target = e.target then d :: rest
    else if d.isMoreSpecific e then d :: e :: rest
    else e :: add rest d

/-- The pieces of a text between commas; `reversed` is the piece so far. -/
def pieces (reversed : List Char) : List Char → List (List Char)
  | [] => [reversed.reverse]
  | ',' :: rest => reversed.reverse :: pieces [] rest
  | c :: rest => pieces (c :: reversed) rest

/-- The filter of a text: directives between commas, of which empty ones are passed over. -/
def ofText? (s : String) : Option LogFilter :=
  (((pieces [] s.toList).filter (!·.isEmpty)).mapM Directive.ofText?).map fun directives => directives.foldl add []

/-- A filter as a text. -/
def text (filter : LogFilter) : String := ",".intercalate (filter.map Directive.text)

end LogFilter

/-- The filter of a log: what the environment says, where that is a filter, else what the settings say. -/
def LoggingSettings.filter (s : LoggingSettings) (override : Option String) : Except GraphError LogFilter :=
  match override.bind LogFilter.ofText? with
  | some filter => .ok filter
  | none =>
    match LogFilter.ofText? s.level with
    | some filter => .ok filter
    | none => .error (.settings (.badLevel s.level))

end PropertyGraph
