import Curried.Evaluator
import Curried.Grammar.Program
import Curried.Host.Standard
import Curried.Json.Reader

/-!
# Interpreting sources

Reading a source, or the JSON form of a tree, and evaluating what was read.
Nothing is evaluated unless all of it could be read.
-/

namespace Curried

/-- Why a source gave no value. -/
inductive InterpretError where
  /-- The source is no program. -/
  | unreadable (error : SyntaxError)
  /-- The text is not the JSON form of a tree. -/
  | malformed (error : TreeError)
  /-- The evaluation failed. -/
  | failed (error : EvalError)
  /-- The evaluation did not come to an end within its nesting allowance. -/
  | unfinished

namespace InterpretError

/-- What the error is about. -/
def heading : InterpretError → String
  | unreadable _ => "Parse error: "
  | malformed _ => "Malformed node tree: "
  | failed _ => "Evaluation error: "
  | unfinished => "Evaluation error: "

/-- The text of the cause. -/
def cause : InterpretError → String
  | unreadable e => e.message
  | malformed e => e.message
  | failed e => e.message
  | unfinished => "calls are nested too deep"

/-- The text of the error. -/
def message (e : InterpretError) : String :=
  e.heading ++ e.cause

end InterpretError

/-- Evaluates a tree on a machine. -/
def runTree (host : Host) (table : Table) (scope : Scope) (t : Tree) (m : Machine) :
    Except InterpretError Value × Machine :=
  match evaluate host table scope t m with
  | none => (.error .unfinished, m)
  | some (.error e, m') => (.error (.failed e), m')
  | some (.ok v, m') => (.ok v, m')

/-- Reads and evaluates a source. -/
def runSource (host : Host) (table : Table) (scope : Scope) (source : String)
    (m : Machine) : 
    Except InterpretError Value × Machine :=
  match parse source with
  | .error e => (.error (.unreadable e), m)
  | .ok t => runTree host table scope t m

/-- Reads and evaluates the JSON form of a tree. -/
def runJson (host : Host) (table : Table) (scope : Scope) (source : String)
    (m : Machine) : 
    Except InterpretError Value × Machine :=
  match Tree.ofJson source with
  | .error e => (.error (.malformed e), m)
  | .ok t => runTree host table scope t m

/-- A machine with one empty scope. -/
def Machine.withRoot : Machine :=
  { Machine.initial with store := Store.empty.pushRoot }

/-- The scope of a machine that was made with one. -/
def Scope.root : Scope :=
  ⟨0⟩

/-- Interprets a source in a scope of its own and gives the display of its
value. -/
def interpret (source : String) : Except InterpretError String :=
  (runSource Host.standard Table.empty Scope.root source Machine.withRoot).1.map
    Value.display

end Curried
