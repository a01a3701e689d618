import Curried.CommandLine.Filter
import Curried.CommandLine.Invocation
import Curried.Graph
import Curried.Interpreter

/-!
# Reports

What an invocation prints and the code it ends with.  Success prints the result;
failure prints the error and, after it, its cause, and ends with code one.  The
notices of the filter and the log of events stand before the error.
-/

namespace Curried

/-- What is printed, and the code at the end. -/
structure Report where
  code : Nat
  output : String
  errors : String
deriving DecidableEq

namespace Report

/-- A result. -/
def success (log output : String) : Report :=
  ⟨0, output, log⟩

/-- A failure. -/
def failure (log error : String) : Report :=
  ⟨1, "", log ++ "Error: " ++ error ++ "\n"⟩

/-- An error of interpretation is followed by its cause. -/
def ofError (log : String) (e : InterpretError) : Report :=
  failure log (e.message ++ ": " ++ e.cause)

/-- Why an input could not be read: which one it is, and what the system
says. -/
def unreadable (log file reason : String) : Report :=
  failure log ("failed to read " ++ (if file = "-" then "stdin" else file) ++
    ": " ++ reason)

/-- The machine on which a command starts, with one scope. -/
def startMachine (prelude : Bool) : Machine :=
  if prelude then
    match installPrelude Scope.root Machine.withRoot with
    | some (_, m) => m
    | none => Machine.withRoot
  else
    Machine.withRoot

/-- The notices of a filter and the events that it admits. -/
def logOf (filter : Filter) (m : Machine) : String :=
  filter.notices ++ filter.lines m.journal.toList

/-- The report on an interpretation. -/
def ofOutcome (filter : Filter) : Except InterpretError Value × Machine → Report
  | (.ok v, m) => success (logOf filter m) (v.display ++ "\n")
  | (.error e, m) => ofError (logOf filter m) e

/-- The report on a command that has read its input, if it has one. -/
def ofCommand (filter : Filter) (input : String) : Command → Report
  | .eval source prelude =>
      ofOutcome filter
        (runSource Host.standard Table.empty Scope.root source
          (startMachine prelude))
  | .run _ prelude =>
      ofOutcome filter
        (runSource Host.standard Table.empty Scope.root input
          (startMachine prelude))
  | .evalTree _ prelude =>
      ofOutcome filter
        (runJson Host.standard Table.empty Scope.root input
          (startMachine prelude))
  | .parse source =>
      match Curried.parse source with
      | .ok t => success filter.notices (t.renderJson ++ "\n")
      | .error e => ofError filter.notices (.unreadable e)
  | .graph source format =>
      match Curried.parse source with
      | .ok t =>
          match format with
          | .json => success filter.notices ((Graph.ofTree t).renderJson ++ "\n")
          | .dot => success filter.notices (Graph.ofTree t).renderDot
      | .error e => ofError filter.notices (.unreadable e)

/-- The report on an invocation.  The input is what its file holds, or the
reason why that could not be read. -/
def ofInvocation (i : Invocation) (input : Except String String) : Report :=
  let filter := match i.log with
    | some text => Filter.ofText text
    | none => Filter.empty
  match i.command.file?, input with
  | some file, .error reason => unreadable filter.notices file reason
  | some _, .ok text => ofCommand filter text i.command
  | none, _ => ofCommand filter "" i.command

/-- The code at the end when the arguments are misused. -/
def misuse : Nat :=
  2

end Report

end Curried
