import Curried.CommandLine.EventLine
import Curried.Text.Alphanumeric
import Curried.Text.Blank

/-!
# Directives

A directive sets the greatest verbosity for some of the lines of a log.

**Form.**  A verbosity alone holds for all lines.  Otherwise a directive has the
form `name[span{field}]=verbosity`, of which any part may be missing: the start
of the names of its sources, the name of a span, a field that lines must have,
with a pattern for its value or without one, and the verbosity.

**Spans.**  A directive that names a span, or asks for the value of a field, is
about what happens inside spans.  An evaluation has no spans, so such a
directive fits no line.
-/

namespace Curried

/-- A condition on a field: its name, and the pattern for its value if there is
one. -/
structure FieldTest where
  name : String
  pattern : Option String
deriving DecidableEq

/-- A directive: the start of the names of its sources, the span and the field
that it asks for, and the verbosity. -/
structure Directive where
  target : String
  span : Option String
  field : Option FieldTest
  verbosity : Verbosity
deriving DecidableEq

/-- Why a text is no directive. -/
inductive DirectiveFault where
  /-- It does not have the form of a directive. -/
  | form
  /-- What stands after the equals sign is no verbosity. -/
  | verbosity
deriving DecidableEq

/-- The text of a fault. -/
def DirectiveFault.message : DirectiveFault → String
  | form => "invalid filter directive"
  | verbosity =>
      "error parsing level filter: expected one of \"off\", \"error\", " ++
        "\"warn\", \"info\", \"debug\", \"trace\", or a number 0-5"

/-- Reads a condition on a field: a name, and after an equals sign a pattern,
which ends before a second one. -/
def FieldTest.ofText (s : String) : FieldTest :=
  let (name, rest) := s.toList.span (· != '=')
  match rest with
  | [] => ⟨s, none⟩
  | _ :: pattern =>
      ⟨String.ofList name, some (String.ofList (pattern.takeWhile (· != '=')))⟩

namespace Directive

/-- Whether a directive can start with a character: a letter, a number, or one
of four signs. -/
def isStart (c : Char) : Bool :=
  c == '-' || c == ':' || c == '_' || c == '[' || Text.isAlphanumeric c

/-- Reads a text without bracket and equals sign: a verbosity for all sources,
or a name for which everything is shown. -/
def ofWord (s : String) : Directive :=
  match Verbosity.ofText? s with
  | some v => ⟨"", none, none, v⟩
  | none => ⟨s, none, none, .trace⟩

/-- What is still to be read of a directive.  The signs of its form are looked
for in the text without the blanks at its ends, while its parts are cut from the
whole text at the same places: each character of the former is paired with the
one at its place in the latter, and `tail` is the end of the latter. -/
structure Remainder where
  pairs : List (Char × Char)
  tail : List Char

namespace Remainder

/-- All of a text. -/
def ofText (s : String) : Remainder :=
  let chars := s.toList
  let inner := Text.trimBlanks chars
  ⟨inner.zip chars, chars.drop inner.length⟩

/-- The part before the first character of the given ones, and what follows
it. -/
def splitAt (r : Remainder) (signs : List Char) : String × Remainder :=
  let (before, rest) := r.pairs.span fun c => !signs.contains c.1
  (String.ofList (before.map Prod.snd), { r with pairs := rest })

/-- The next sign, and what follows it. -/
def next? (r : Remainder) : Option (Char × Remainder) :=
  match r.pairs with
  | [] => none
  | c :: rest => some (c.1, { r with pairs := rest })

/-- All that is left of the whole text. -/
def text (r : Remainder) : String :=
  String.ofList (r.pairs.map Prod.snd ++ r.tail)

end Remainder

/-- Reads the verbosity of a directive; an empty one shows everything. -/
def readVerbosity (d : Directive) (r : Remainder) :
    Except DirectiveFault Directive :=
  if r.text.isEmpty then
    .ok { d with verbosity := .trace }
  else
    match Verbosity.ofText? r.text with
    | some verbosity => .ok { d with verbosity }
    | none => .error .verbosity

/-- Reads what follows the closing bracket: nothing, which shows everything, or
a verbosity. -/
def readEnd (d : Directive) (r : Remainder) : Except DirectiveFault Directive :=
  match r.next? with
  | none => .ok { d with verbosity := .trace }
  | some ('=', r) => readVerbosity d r
  | some _ => .error .form

/-- Reads a field up to its closing brace, and the closing bracket. -/
def readField (d : Directive) (r : Remainder) : Except DirectiveFault Directive :=
  let (field, r) := r.splitAt ['\x7d']
  match r.next?.bind fun (_, r) => r.next? with
  | some (']', r) =>
      if field.isEmpty then .error .form
        else readEnd { d with field := some (FieldTest.ofText field) } r
  | _ => .error .form

/-- Reads what stands in brackets: the name of a span, and a field in braces.
Before a field the name may be missing. -/
def readSpan (d : Directive) (r : Remainder) : Except DirectiveFault Directive :=
  let (name, r) := r.splitAt [']', '\x7b']
  match r.next? with
  | none => .error .form
  | some (']', r) => readEnd { d with span := some name } r
  | some (_, r) =>
      readField { d with span := if name.isEmpty then none else some name } r

/-- Reads a directive. -/
def ofText (s : String) : Except DirectiveFault Directive :=
  let r := Remainder.ofText s
  match r.next? with
  | none => .error .form
  | some (first, _) =>
      if isStart first then
        let (target, r) := r.splitAt ['=', '[']
        let d : Directive := ⟨target, none, none, .trace⟩
        match r.next? with
        | none => .ok (ofWord s)
        | some ('=', r) => readVerbosity d r
        | some (_, r) => readSpan d r
      else
        .error .form

/-- Whether a directive fits a line. -/
def fits (d : Directive) (l : EventLine) : Bool :=
  d.target.toList.isPrefixOf l.source.toList && d.span.isNone &&
    match d.field with
    | none => true
    | some ⟨name, none⟩ => l.hasField name
    | some ⟨_, some _⟩ => false

/-- Whether the first of two directives that fit a line gives way to the second,
which stands after it: when the second has the longer target, or one as long and
a field where the first has none, or a field whose name does not come before
that of the first. -/
def givesWay (d later : Directive) : Bool :=
  if d.target.length = later.target.length then
    match d.field, later.field with
    | none, _ => true
    | some _, none => false
    | some f, some g => !decide (g.name < f.name)
  else
    d.target.length < later.target.length

end Directive

end Curried
