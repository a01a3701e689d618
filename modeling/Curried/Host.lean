import Curried.Machine

/-!
# Hosts

A host lends its own functions and operators to programs.  What one of them does
with its arguments is an `Action`: a description that can give a value, fail,
call another value and look at the outcome, log a line, or make a new value.  A
host function never sees the machine itself.

**Finite actions.**  An action is a tree that branches over the outcomes of its
calls, and each of its branches is finite.  So a host function that calls values
until one of them answers as it likes has no single action that is right for all
runs.  A run that ends makes finitely many calls, and is covered by an action
with as many.
-/

namespace Curried

/-- A value that a host asks for: a host function that has received some
arguments, or a foreign value. -/
inductive Blueprint where
  | builtin (name : String) (received : List Value)
  | foreign (parcel : Parcel)

/-- What a host function does. -/
inductive Action where
  /-- Gives a value. -/
  | give (value : Value)
  /-- Fails. -/
  | fail (error : EvalError)
  /-- Calls a value, and goes on with the outcome. -/
  | call (callee argument : Value) (next : Except EvalError Value → Action)
  /-- Logs a line, and goes on. -/
  | write (line : String) (next : Action)
  /-- Makes a value, and goes on with it. -/
  | make (blueprint : Blueprint) (next : Value → Action)

/-- A host: what its functions do with an argument after the ones already
received, and what its operators do with their two operands.  An operator is
also told the symbol under which it was called. -/
structure Host where
  builtin : (name : String) → (received : List Value) → (argument : Value) → Action
  operator : (name symbol : String) → (left right : Value) → Action

/-- How values are called: the tag to blame if the value cannot be called, the
value, and the argument. -/
abbrev Caller : Type :=
  String → Value → Value → EvalM Value

namespace Blueprint

/-- The value that a blueprint describes, with the number `id`. -/
def value (id : Nat) : Blueprint → Value
  | builtin name received => .builtin id name received
  | foreign parcel => .foreign id parcel

/-- Makes the value that a blueprint describes. -/
def make (b : Blueprint) : EvalM Value := do
  let id ← EvalM.fresh
  pure (b.value id)

end Blueprint

namespace Action

/-- Goes on with the value of a call, and hands an error of it on. -/
def andThenCall (callee argument : Value) (next : Value → Action) : Action :=
  .call callee argument fun
    | .ok v => next v
    | .error e => .fail e

/-- Carries an action out, calling values by `call`.  A value that cannot be
called is blamed on an application. -/
def run (call : Caller) : Action → EvalM Value
  | .give v => pure v
  | .fail e => EvalM.fail e
  | .call callee argument next => do
      let outcome ← (call "apply" callee argument).attempt
      run call (next outcome)
  | .write line next => do
      EvalM.update (·.write line)
      run call next
  | .make blueprint next => do
      let v ← blueprint.make
      run call (next v)

end Action

end Curried
