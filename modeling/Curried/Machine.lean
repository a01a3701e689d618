import Curried.EvalError
import Curried.Store

/-!
# The machine

What an evaluation reads and changes: the store of scopes, the count of values
made so far, the number of function bodies under evaluation, the lines logged by
host functions, and the journal of events.

**Evaluations.**  An `EvalM α` takes the machine and gives a result or an error
together with the machine after it.  What was done before an error stays done.
An evaluation whose nesting allowance is used up gives nothing at all, which is
no error of the program and cannot be caught.
-/

namespace Curried

/-- What happened during an evaluation. -/
inductive Happening where
  /-- A node was entered. -/
  | visit (tag text : String)
  /-- A name was bound to a value. -/
  | bind (name : String) (value : Value)
  /-- A function was defined. -/
  | define (name : String) (parameters : List String)
  /-- The evaluation of a function body began. -/
  | enter
  /-- The evaluation of a function body ended. -/
  | leave

/-- An event: what happened, and how many function bodies were under evaluation
just after it. -/
structure Event where
  depth : Nat
  happening : Happening

/-- The state of an evaluation. -/
structure Machine where
  store : Store
  made : Nat
  depth : Nat
  log : Array String
  journal : Array Event

namespace Machine

/-- The machine before anything has happened. -/
def initial : Machine :=
  ⟨Store.empty, 0, 0, #[], #[]⟩

/-- Writes an event down. -/
def record (m : Machine) (h : Happening) : Machine :=
  { m with journal := m.journal.push ⟨m.depth, h⟩ }

/-- Appends a line to the log. -/
def write (m : Machine) (line : String) : Machine :=
  { m with log := m.log.push line }

/-- Binds a name in a scope. -/
def define (m : Machine) (scope : Scope) (name : String) (value : Value) :
    Machine :=
  { m with store := m.store.define scope name value }

end Machine

/-- A computation on the machine. -/
def EvalM (α : Type) : Type :=
  Machine → Option (Except EvalError α × Machine)

namespace EvalM

variable {α β : Type}

/-- Gives a value and changes nothing. -/
@[always_inline, inline]
def succeed (x : α) : EvalM α :=
  fun m => some (.ok x, m)

/-- Fails and changes nothing. -/
@[always_inline, inline]
def fail (e : EvalError) : EvalM α :=
  fun m => some (.error e, m)

/-- The nesting allowance is used up. -/
@[always_inline, inline]
def exhausted : EvalM α :=
  fun _ => none

/-- Runs `x` and, if it gives a value, what `f` makes of that value. -/
@[always_inline, inline]
def andThen (x : EvalM α) (f : α → EvalM β) : EvalM β :=
  fun m =>
    match x m with
    | none => none
    | some (.error e, m') => some (.error e, m')
    | some (.ok a, m') => f a m'

instance : Monad EvalM where
  pure := succeed
  bind := andThen

/-- Gives the value or the error that is there already. -/
@[always_inline, inline]
def ofExcept : Except EvalError α → EvalM α
  | .ok a => succeed a
  | .error e => fail e

/-- Runs `x` and gives its result, error or not, as a value. -/
@[always_inline, inline]
def attempt (x : EvalM α) : EvalM (Except EvalError α) :=
  fun m =>
    match x m with
    | none => none
    | some (r, m') => some (.ok r, m')

/-- Reads something off the machine. -/
@[always_inline, inline]
def gets (f : Machine → α) : EvalM α :=
  fun m => some (.ok (f m), m)

/-- Changes the machine. -/
@[always_inline, inline]
def update (f : Machine → Machine) : EvalM Unit :=
  fun m => some (.ok (), f m)

/-- Writes an event down. -/
def record (h : Happening) : EvalM Unit :=
  update (·.record h)

/-- A number that no value made so far has. -/
def fresh : EvalM Nat :=
  fun m => some (.ok m.made, { m with made := m.made + 1 })

/-- Makes a function of the language. -/
def makeFunction (c : Closure) : EvalM Value := do
  let id ← fresh
  pure (.function id c)

/-- Makes a scope inside another one with one name bound. -/
def extendScope (scope : Scope) (name : String) (value : Value) : EvalM Scope :=
  fun m => some (.ok m.store.next,
    { m with store := m.store.pushChild scope name value })

/-- Binds a name in a scope. -/
def define (scope : Scope) (name : String) (value : Value) : EvalM Unit :=
  update (·.define scope name value)

/-- The machine with one more function body under evaluation. -/
def enter : EvalM Unit :=
  update fun m => { m with depth := m.depth + 1 }.record .enter

/-- The machine with one function body fewer under evaluation. -/
def leave : EvalM Unit :=
  update fun m => { m with depth := m.depth - 1 }.record .leave

/-- Runs `body` as the body of a function, unless too many bodies are under
evaluation already.  The count goes down again whether the body gives a value or
an error. -/
def nested (body : EvalM α) : EvalM α := do
  let depth ← gets Machine.depth
  if recursionLimit ≤ depth then
    fail .recursionLimit
  else
    enter
    let result ← attempt body
    leave
    ofExcept result

end EvalM

end Curried
