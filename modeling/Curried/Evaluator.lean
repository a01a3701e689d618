import Curried.Host
import Curried.Number.Numeral

/-!
# The evaluator

**Input.**  A node tree, the scope in which its names are looked up and bound,
and the operator table in force.

**Order.**  Children are evaluated from left to right; a node whose shape does
not fit its tag fails before any child is evaluated.

**Calls.**  A function takes one argument at a time.  Each argument is bound in
a scope of its own inside the scope of the function; with the last one the body
is evaluated there.  The evaluator of trees is given how to call values, and
`callValue` is given how deep calls may nest; `evaluate` ties the two together.
-/

namespace Curried

/-- The operators that the language itself knows. -/
inductive Operator where
  | plus
  | minus
  | times
  | divide
  | apply
deriving DecidableEq

namespace Operator

/-- The operator that a symbol stands for. -/
def ofSymbol? : String → Option Operator
  | "+" => some plus
  | "-" => some minus
  | "*" => some times
  | "/" => some divide
  | "$" => some apply
  | _ => none

/-- The symbol of an operator. -/
def symbol : Operator → String
  | plus => "+"
  | minus => "-"
  | times => "*"
  | divide => "/"
  | apply => "$"

theorem ofSymbol?_symbol (o : Operator) : ofSymbol? o.symbol = some o := by
  cases o <;> rfl

/-- What an operator other than application makes of two values.  Numbers are
reckoned with; plus joins texts, and joins a text and the display of a
number. -/
def combine (o : Operator) (left right : Value) : Except EvalError Value :=
  match o, left, right with
  | plus, .number x, .number y => .ok (.number (x + y))
  | plus, .text s, .text t => .ok (.text (s ++ t))
  | plus, .text s, .number y => .ok (.text (s ++ (Value.number y).display))
  | plus, .number x, .text t => .ok (.text ((Value.number x).display ++ t))
  | minus, .number x, .number y => .ok (.number (x - y))
  | times, .number x, .number y => .ok (.number (x * y))
  | divide, .number x, .number y => .ok (.number (x / y))
  | o, left, right => .error (.operands o.symbol left.typeName right.typeName)

end Operator

/-- The number that the text of an integer node stands for. -/
def integerValue (text : String) : Except EvalError Value :=
  let digits := text.toList
  if digits.isEmpty || !digits.all Char.isDigit then
    .error (.badInteger text)
  else
    .ok (.number (Numeral.ofDigits digits))

/-- A text without the quotes at its two ends. -/
def unquote? (text : String) : Option String :=
  match text.toList with
  | '"' :: rest =>
      match rest.reverse with
      | '"' :: inner => some (String.ofList inner.reverse)
      | _ => none
  | _ => none

/-- The text that the text of a text node stands for. -/
def textValue (text : String) : Except EvalError Value :=
  match unquote? text with
  | some s => .ok (.text s)
  | none => .error (.badText text)

/-- The names of the parameters in a list of pattern nodes. -/
def parameterNames : List Tree → Except EvalError (List String)
  | [] => .ok []
  | t :: ts =>
      if t.kind = .identifier then
        (parameterNames ts).map (t.text :: ·)
      else
        .error (.wrongTarget .parameter t.tag)

/-- Binds a function of the given name, parameters and body in a scope. -/
def defineFunction
    (table : Table) (scope : Scope) (name patterns body : Tree) :
    EvalM Value := do
  if name.kind ≠ .identifier then
    EvalM.fail (.wrongTarget .functionName name.tag)
  else
    match parameterNames patterns.children with
    | .error e => EvalM.fail e
    | .ok [] => EvalM.fail .noParameters
    | .ok (parameter :: others) => do
        EvalM.record (.define name.text (parameter :: others))
        let v ← EvalM.makeFunction ⟨name.text, parameter :: others, 0, body,
            scope, table⟩
        EvalM.define scope name.text v
        pure v

/-- The value of a name in a scope. -/
def lookupName (scope : Scope) (name : String) : EvalM Value := do
  match ← EvalM.gets (·.store.lookup scope name) with
  | some v => pure v
  | none => EvalM.fail (.undefined name)

/-- Applies the operator with the given symbol: the entry of the table if there
is one, else the operator of the language. -/
def applyOperator
    (host : Host) (call : Caller) (table : Table) (symbol : String)
    (left right : Value) :
    EvalM Value :=
  match table.find? symbol with
  | some name => (host.operator name symbol left right).run call
  | none =>
      match Operator.ofSymbol? symbol with
      | none => EvalM.fail (.unknownOperator symbol)
      | some .apply => call "infix" left right
      | some o => EvalM.ofExcept (o.combine left right)

mutual

/-- Evaluates a tree, calling values by `call`. -/
def evalTree (host : Host) (call : Caller) (table : Table) (scope : Scope) :
    Tree → EvalM Value
  | ⟨tag, text, children⟩ => do
      EvalM.record (.visit tag text)
      match Kind.ofTag tag with
      | .declarations => evalEach host call table scope children .unit
      | .integer =>
          match children with
          | [] => EvalM.ofExcept (integerValue text)
          | _ => EvalM.fail (.notLeaf tag children.length)
      | .text =>
          match children with
          | [] => EvalM.ofExcept (textValue text)
          | _ => EvalM.fail (.notLeaf tag children.length)
      | .identifier =>
          match children with
          | [] => lookupName scope text
          | _ => EvalM.fail (.notLeaf tag children.length)
      | .function =>
          match children with
          | [name, patterns, body] => defineFunction table scope name patterns body
          | _ => EvalM.fail (.childCount tag 3 children.length)
      | .equation =>
          match children with
          | [sign, body] =>
              if sign.text = "=" then
                evalTree host call table scope body
              else
                EvalM.fail (.badSign sign.text)
          | _ => EvalM.fail (.childCount tag 2 children.length)
      | .bind =>
          match children with
          | [target, value] =>
              if target.kind ≠ .identifier then
                EvalM.fail (.wrongTarget .bound target.tag)
              else if value.kind ≠ .equation then
                EvalM.fail (.notEquation value.tag)
              else do
                let v ← evalTree host call table scope value
                EvalM.record (.bind target.text v)
                EvalM.define scope target.text v
                pure v
          | _ => EvalM.fail (.childCount tag 2 children.length)
      | .infixOp =>
          match children with
          | [left, operator, right] => do
              let l ← evalTree host call table scope left
              let r ← evalTree host call table scope right
              applyOperator host call table operator.text l r
          | _ => EvalM.fail (.childCount tag 3 children.length)
      | .apply =>
          match children with
          | [function, argument] => do
              let f ← evalTree host call table scope function
              let a ← evalTree host call table scope argument
              call "apply" f a
          | _ => EvalM.fail (.childCount tag 2 children.length)
      | .parens =>
          match children with
          | [_, inner, _] => evalTree host call table scope inner
          | _ => EvalM.fail (.childCount tag 3 children.length)
      | .other =>
          match children with
          | [] => EvalM.fail (.unsupportedLeaf tag text)
          | [only] => evalTree host call table scope only
          | _ => EvalM.fail (.unsupportedBranch tag children.length)

/-- Evaluates trees one after the other and gives the value of the last one, or
`last` if there is none. -/
def evalEach (host : Host) (call : Caller) (table : Table) (scope : Scope) :
    List Tree → Value → EvalM Value
  | [], last => pure last
  | t :: ts, _ => do
      let v ← evalTree host call table scope t
      evalEach host call table scope ts v

end

/-- Calls a value with calls nested at most `n` deep. -/
def callValue (host : Host) : Nat → Caller
  | 0, _, _, _ => EvalM.exhausted
  | n + 1, tag, callee, argument =>
      match callee with
      | .function _ c => do
          let scope ← EvalM.extendScope c.scope c.parameter argument
          if c.next + 1 = c.params.length then
            EvalM.nested (evalTree host (callValue host n) c.table scope c.body)
          else
            EvalM.makeFunction (c.advance scope)
      | .builtin _ name received =>
          (host.builtin name received argument).run (callValue host n)
      | v => EvalM.fail (.notCallable tag v.typeName)

/-- How deep calls may nest, functions of the host included: more than any
machine has room for. -/
def callAllowance : Nat :=
  0x100000000

/-- Evaluates a tree in a scope under an operator table. -/
def evaluate (host : Host) (table : Table) (scope : Scope) (t : Tree) :
    EvalM Value :=
  evalTree host (callValue host callAllowance) table scope t

/-- Calls a value. -/
def call (host : Host) (callee argument : Value) : EvalM Value :=
  callValue host callAllowance "apply" callee argument

end Curried
