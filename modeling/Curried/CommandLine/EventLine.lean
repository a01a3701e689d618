import Curried.Machine

/-!
# Event lines

The events of an evaluation as lines of a log.  A line has a verbosity, a
source, a message and named fields; the message counts as a field of its own
name.
-/

namespace Curried

/-- How much a directive lets through, from nothing to everything. -/
inductive Verbosity where
  | off
  | error
  | warn
  | info
  | debug
  | trace
deriving DecidableEq

namespace Verbosity

/-- The place of a verbosity in the order. -/
def rank : Verbosity → Nat
  | off => 0
  | error => 1
  | warn => 2
  | info => 3
  | debug => 4
  | trace => 5

/-- The verbosity of a given rank. -/
def ofRank? : Nat → Option Verbosity
  | 0 => some off
  | 1 => some error
  | 2 => some warn
  | 3 => some info
  | 4 => some debug
  | 5 => some trace
  | _ => none

/-- The number that a text of decimal digits stands for. -/
def number? (digits : List Char) : Option Nat :=
  if digits.isEmpty || !digits.all Char.isDigit then
    none
  else
    some (digits.foldl (fun n c => 10 * n + (c.toNat - '0'.toNat)) 0)

/-- The verbosity whose rank is written in decimal digits, with a plus sign
before them or not. -/
def ofNumber? (s : String) : Option Verbosity :=
  match s.toList with
  | '+' :: digits => (number? digits).bind ofRank?
  | digits => (number? digits).bind ofRank?

/-- The verbosity of a given name, in letters of either case. -/
def ofName? (s : String) : Option Verbosity :=
  match String.ofList (s.toList.map Char.toLower) with
  | "off" => some off
  | "error" => some error
  | "warn" => some warn
  | "info" => some info
  | "debug" => some debug
  | "trace" => some trace
  | _ => none

/-- The verbosity of a given rank or name. -/
def ofText? (s : String) : Option Verbosity :=
  (ofNumber? s).or (ofName? s)

/-- The label of an event line. -/
def label : Verbosity → String
  | off => "OFF"
  | error => "ERROR"
  | warn => "WARN"
  | info => "INFO"
  | debug => "DEBUG"
  | trace => "TRACE"

end Verbosity

/-- A line of the log: its verbosity, its source, its message, and its fields in
order. -/
structure EventLine where
  verbosity : Verbosity
  source : String
  message : String
  fields : List (String × String)

namespace EventLine

/-- The source of the events of evaluation. -/
def evaluation : String :=
  "hseval::evaluator::core_eval"

/-- The source of the events of function definition. -/
def definition : String :=
  "hseval::evaluator::function_application"

/-- The line of an event; entering and leaving function bodies has none. -/
def ofHappening? : Happening → Option EventLine
  | .visit tag text =>
      some ⟨.trace, evaluation, "evaluate", [("tag", tag), ("text", text)]⟩
  | .bind name value =>
      some ⟨.debug, evaluation, "bind",
        [("name", name), ("value", value.display)]⟩
  | .define name parameters =>
      some ⟨.debug, definition, "define function",
        [("name", name), ("params", Text.quotedList parameters)]⟩
  | .enter => none
  | .leave => none

/-- Whether a line has a field of the given name. -/
def hasField (l : EventLine) (name : String) : Bool :=
  name == "message" || l.fields.any (·.1 == name)

/-- The text of a line, its line end included. -/
def render (l : EventLine) : String :=
  l.verbosity.label ++ " " ++ l.source ++ ": " ++ l.message
    ++ String.join (l.fields.map fun (name, value) => " " ++ name ++ "=" ++
      value) ++ "\n"

end EventLine

end Curried
