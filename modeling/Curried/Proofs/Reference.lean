import Curried.Interpreter

/-!
# A reference evaluator

An evaluator of programs that has no frames: nothing is shared and nothing is
changed but one finite map.

**Names.**  A name stands for what the current call has received under it, the
latest argument first, and otherwise for what the map of globals has under it.
Expressions only read the map; a declaration may add to it.

**Functions.**  A function carries its own code and the arguments it has
received.  Supplying an argument makes another function; supplying the last one
evaluates the body with the globals as they are then.

**Depth.**  `call` is told how many bodies may still be entered.  Only a call
that supplies the last argument enters one.

**Appearance.**  What can be told apart about a value from outside: the name of
its type, how it is displayed, and the parameters that a function waits for.
-/

namespace Curried

/-- What can be seen of a value. -/
structure Appearance where
  typeName : String
  display : String
  /-- The parameters still to be supplied, if the value is a function of the
  language. -/
  parameters : Option (List String)

/-- What can be seen after a source has been interpreted: its outcome, and the
names of the scope with their values. -/
structure Observation where
  outcome : Except InterpretError Appearance
  scope : List (String × Option Appearance)

/-- What can be seen of a value. -/
def Value.appearance (v : Value) : Appearance :=
  ⟨v.typeName, v.display, v.closure?.map Closure.parameters⟩

/-- The names bound in a scope itself, with what can be seen of their values. -/
def Store.survey (s : Store) (scope : Scope) : List (String × Option Appearance) :=
  (s.names scope).map fun x => (x, (s.lookup scope x).map Value.appearance)

/-- What can be seen after each of the sources, interpreted one after the other
in the scope of the root without operator table. -/
def observations (m : Machine) : List String → List Observation
  | [] => []
  | source :: sources =>
      let (outcome, m') := runSource Host.standard Table.empty Scope.root source m
      ⟨outcome.map Value.appearance, m'.store.survey Scope.root⟩ ::
        observations m' sources

namespace Reference

/-- The functions of the prelude. -/
inductive Builtin where
  | add
  | mul
deriving DecidableEq

namespace Builtin

/-- The name of a function of the prelude. -/
def name : Builtin → String
  | add => "add"
  | mul => "mul"

/-- What a function of the prelude makes of two numbers. -/
def reckon : Builtin → Float → Float → Float
  | add => (· + ·)
  | mul => (· * ·)

end Builtin

/-- A value.  A function has a name, the arguments it has received with the
parameters they are for, the latest one first, the parameter it waits for next,
the parameters after that one, and its body.  So it has always received fewer
arguments than it has parameters. -/
inductive Value where
  | unit
  | number (x : Float)
  | text (s : String)
  | function (name : String) (received : List (String × Value))
      (parameter : String) (others : List String) (body : Tree)
  | builtin (f : Builtin) (first : Option Value)

namespace Value

/-- The name of the sort of value. -/
def typeName : Value → String
  | unit => "unit"
  | number _ => "number"
  | text _ => "string"
  | function _ _ _ _ _ => "function"
  | builtin _ _ => "builtin"

/-- A value as a program shows it. -/
def display : Value → String
  | unit => ""
  | number x => NumberFormat.display.text x
  | text s => s
  | function name _ _ others _ =>
      "<function " ++ name ++ "/" ++ toString (others.length + 1) ++ ">"
  | builtin f _ => "<builtin " ++ f.name ++ ">"

/-- The parameters that a function of the language still waits for. -/
def parameters? : Value → Option (List String)
  | function _ _ parameter others _ => some (parameter :: others)
  | _ => none

/-- What can be seen of a value. -/
def appearance (v : Value) : Appearance :=
  ⟨v.typeName, v.display, v.parameters?⟩

end Value

/-- The values of the names bound by declarations. -/
abbrev Globals : Type :=
  Std.TreeMap String Value

/-- How values are called: the tag to blame if the value cannot be called, the
value, and the argument. -/
abbrev Caller : Type :=
  String → Value → Value → Except EvalError Value

/-- What a name stands for inside a call that has received `arguments`. -/
def resolve (globals : Globals) (arguments : List (String × Value))
    (name : String) : Option Value :=
  (arguments.lookup name).or globals[name]?

/-- The value of a name, or an error if it has none. -/
def nameValue (globals : Globals) (arguments : List (String × Value))
    (name : String) : Except EvalError Value :=
  match resolve globals arguments name with
  | some v => .ok v
  | none => .error (.undefined name)

/-- The text that a text in quotes stands for. -/
def textValue (text : String) : Except EvalError Value :=
  match unquote? text with
  | some s => .ok (.text s)
  | none => .error (.badText text)

/-- What an operator other than application makes of two values. -/
def combine (o : Operator) (left right : Value) : Except EvalError Value :=
  match o, left, right with
  | .plus, .number x, .number y => .ok (.number (x + y))
  | .plus, .text s, .text t => .ok (.text (s ++ t))
  | .plus, .text s, .number y => .ok (.text (s ++ (Value.number y).display))
  | .plus, .number x, .text t => .ok (.text ((Value.number x).display ++ t))
  | .minus, .number x, .number y => .ok (.number (x - y))
  | .times, .number x, .number y => .ok (.number (x * y))
  | .divide, .number x, .number y => .ok (.number (x / y))
  | o, left, right => .error (.operands o.symbol left.typeName right.typeName)

/-- What the operator with the given symbol makes of two values. -/
def operate (call : Caller) (symbol : String) (left right : Value) :
    Except EvalError Value :=
  match Operator.ofSymbol? symbol with
  | none => .error (.unknownOperator symbol)
  | some .apply => call "infix" left right
  | some o => combine o left right

/-- Evaluates an expression, or an equals sign and an expression, inside a call
that has received `arguments`. -/
def eval (call : Caller) (globals : Globals)
    (arguments : List (String × Value)) : Tree → Except EvalError Value
  | ⟨"integer", text, []⟩ => .ok (.number (Numeral.ofDigits text.toList))
  | ⟨"string", text, []⟩ => textValue text
  | ⟨"variable", name, []⟩ => nameValue globals arguments name
  | ⟨"parens", _, [_, inner, _]⟩ => eval call globals arguments inner
  | ⟨"match", _, [_, body]⟩ => eval call globals arguments body
  | ⟨"apply", _, [function, argument]⟩ => do
      let f ← eval call globals arguments function
      let a ← eval call globals arguments argument
      call "apply" f a
  | ⟨"infix", _, [left, operator, right]⟩ => do
      let l ← eval call globals arguments left
      let r ← eval call globals arguments right
      operate call operator.text l r
  | ⟨tag, text, _⟩ => .error (.unsupportedLeaf tag text)

/-- What a function of the prelude makes of its two arguments. -/
def arithmetic (f : Builtin) (left right : Value) : Except EvalError Value :=
  match left, right with
  | .number x, .number y => .ok (.number (f.reckon x y))
  | _, _ =>
      .error (.raised .type "apply"
        (f.name ++ " expects two numbers, found " ++ left.typeName ++ " and " ++
          right.typeName))

/-- Calls a value where `levels` more bodies may be entered. -/
def call (globals : Globals) (levels : Nat) (tag : String)
    (callee argument : Value) : Except EvalError Value :=
  match callee with
  | .function name received parameter (next :: others) body =>
      .ok (.function name ((parameter, argument) :: received) next others body)
  | .function _ received parameter [] body =>
      match levels with
      | 0 => .error .recursionLimit
      | levels + 1 =>
          eval (call globals levels) globals ((parameter, argument) ::
            received) body
  | .builtin f none => .ok (.builtin f (some argument))
  | .builtin f (some first) => arithmetic f first argument
  | v => .error (.notCallable tag v.typeName)
termination_by structural levels

/-- Evaluates an expression outside of all calls. -/
def evaluate (globals : Globals) (t : Tree) : Except EvalError Value :=
  eval (call globals recursionLimit) globals [] t

/-- Binds a name to the value of an outcome; an error binds nothing. -/
def assign (globals : Globals) (name : String) :
    Except EvalError Value → Except EvalError Value × Globals
  | .error e => (.error e, globals)
  | .ok v => (.ok v, globals.insert name v)

/-- Evaluates a declaration: its outcome, and the globals after it. -/
def declare (globals : Globals) : Tree → Except EvalError Value × Globals
  | ⟨"function", _, [name, patterns, body]⟩ =>
      match patterns.children.map Tree.text with
      | [] => (.error .noParameters, globals)
      | parameter :: others =>
          assign globals name.text
            (.ok (.function name.text [] parameter others body))
  | ⟨"bind", _, [name, value]⟩ => assign globals name.text (evaluate globals value)
  | ⟨"top_splice", _, [expression]⟩ => (evaluate globals expression, globals)
  | ⟨tag, text, _⟩ => (.error (.unsupportedLeaf tag text), globals)

/-- Evaluates declarations one after the other up to the first that fails.  The
outcome is that of the last one evaluated, or `last` if there is none. -/
def declareAll (globals : Globals) :
    List Tree → Value → Except EvalError Value × Globals
  | [], last => (.ok last, globals)
  | t :: ts, _ =>
      match declare globals t with
      | (.error e, globals') => (.error e, globals')
      | (.ok v, globals') => declareAll globals' ts v

/-- Reads and evaluates a source. -/
def run (globals : Globals) (source : String) :
    Except InterpretError Value × Globals :=
  match parse source with
  | .error e => (.error (.unreadable e), globals)
  | .ok t =>
      let (outcome, globals') := declareAll globals t.children .unit
      (outcome.mapError .failed, globals')

/-- The globals with the prelude. -/
def preludeGlobals : Globals :=
  [Builtin.add, Builtin.mul].foldl (fun globals f =>
    globals.insert f.name (.builtin f none)) ∅

/-- The names with what can be seen of their values. -/
def survey (globals : Globals) : List (String × Option Appearance) :=
  globals.keys.map fun x => (x, globals[x]?.map Value.appearance)

/-- What can be seen after each of the sources, interpreted one after the
other. -/
def observations (globals : Globals) : List String → List Observation
  | [] => []
  | source :: sources =>
      let (outcome, globals') := run globals source
      ⟨outcome.map Value.appearance, survey globals'⟩ ::
        observations globals' sources

end Reference

end Curried
