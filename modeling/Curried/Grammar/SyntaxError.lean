import Curried.Grammar.Parser

/-!
# Syntax errors

A syntax error names the furthest place at which a rule failed, and the rules
that were expected there.  Its message shows the line with a mark under the
place.

**Places.**  Lines and columns count from one.  A line ends with a line feed,
alone or after a carriage return; every other character is one column.
-/

namespace Curried

/-- Why a source is no program: after `offset` characters one of the expected
rules should have followed. -/
structure SyntaxError where
  source : String
  offset : Nat
  expected : List Rule

namespace SyntaxError

/-- The error for the attempts noted on a source; each rule is named once. -/
def ofAttempts (source : String) (attempts : Attempts) : SyntaxError where
  source := source
  offset := source.length - attempts.left
  expected := Rule.all.filter (attempts.rules.contains ·)

/-- The line and column reached from a given line and column over some text. -/
def advance : List Char → Nat → Nat → Nat × Nat
  | [], line, column => (line, column)
  | '\r' :: '\n' :: rest, line, _ => advance rest (line + 1) 1
  | c :: rest, line, column =>
      if c = '\n' then advance rest (line + 1) 1 else advance rest line (column + 1)

/-- The characters before the place of the error. -/
def before (e : SyntaxError) : List Char :=
  e.source.toList.take e.offset

/-- The characters from the place of the error on. -/
def after (e : SyntaxError) : List Char :=
  e.source.toList.drop e.offset

/-- The line and column of the error. -/
def place (e : SyntaxError) : Nat × Nat :=
  advance e.before 1 1

/-- The line of the error. -/
def line (e : SyntaxError) : Nat :=
  e.place.1

/-- The column of the error. -/
def column (e : SyntaxError) : Nat :=
  e.place.2

/-- The line that holds the place, its line feed included. -/
def rawLine (e : SyntaxError) : List Char :=
  let start := (e.before.reverse.takeWhile (· != '\n')).reverse
  let stop := e.after.takeWhile (· != '\n')
  start ++ stop ++ (e.after.drop stop.length).take 1

/-- The line as a message shows it.  Line ends are left out, unless one of them
is the very character at the place: then they are made visible. -/
def shownLine (e : SyntaxError) : List Char :=
  let visible := match e.after with
    | c :: _ => c == '\n' || c == '\r'
    | [] => false
  if visible then
    e.rawLine.map fun c => if c = '\r' then '␍' else if c = '\n' then '␊' else c
  else
    e.rawLine.filter fun c => !(c == '\n' || c == '\r')

/-- The mark under the line; tabs before it are kept so that it stands under the
place. -/
def underline (e : SyntaxError) : String :=
  String.ofList ((e.shownLine.take (e.column - 1)).map fun c =>
    if c = '\t' then '\t' else ' ') ++ "^---"

/-- A list of alternatives in words. -/
def alternatives : List String → String
  | [] => ""
  | [a] => a
  | [a, b] => a ++ " or " ++ b
  | names => String.intercalate ", " names.dropLast ++ ", or " ++ names.getLastD ""

/-- The text of the error: the place, the line with the mark under it, and what
was expected. -/
def message (e : SyntaxError) : String :=
  let line := toString e.line
  let margin := String.ofList (List.replicate line.length ' ')
  margin ++ "--> " ++ line ++ ":" ++ toString e.column ++ "\n"
    ++ margin ++ " |\n"
    ++ line ++ " | " ++ String.ofList e.shownLine ++ "\n"
    ++ margin ++ " | " ++ e.underline ++ "\n"
    ++ margin ++ " |\n"
    ++ margin ++ " = expected " ++ alternatives (e.expected.map Rule.name)

end SyntaxError

end Curried
