import Curried.Number.Notation
import Curried.Table
import Curried.Text.Quoted
import Curried.Tree

/-!
# Values

What an expression can evaluate to: the unit value, numbers, texts, functions of
the language, functions of the host, and foreign values that the host hands
through programs without their looking inside.

**Identity.**  Functions of either sort and foreign values are equal only to
themselves.  Each gets a number of its own when it is made, and that number is
compared.
-/

namespace Curried

/-- A handle to a scope: the number of its frame in the store. -/
structure Scope where
  index : Nat
deriving DecidableEq, Inhabited

/-- A function of the language: its name, its parameters and how many of them
have been supplied, its body, and the scope and operator table in which the body
is evaluated. -/
structure Closure where
  name : String
  params : List String
  next : Nat
  body : Tree
  scope : Scope
  table : Table

namespace Closure

/-- The parameters that are still to be supplied. -/
def parameters (c : Closure) : List String :=
  c.params.drop c.next

/-- The number of parameters that are still to be supplied. -/
def arity (c : Closure) : Nat :=
  c.params.length - c.next

/-- The parameter that the next argument is for. -/
def parameter (c : Closure) : String :=
  c.params[c.next]!

/-- The function after one more argument, which `scope` has. -/
def advance (c : Closure) (scope : Scope) : Closure :=
  { c with next := c.next + 1, scope }

theorem length_parameters (c : Closure) : c.parameters.length = c.arity :=
  List.length_drop

theorem parameters_advance (c : Closure) (scope : Scope) :
    (c.advance scope).parameters = c.parameters.tail :=
  List.tail_drop.symm

theorem arity_advance
    (c : Closure) (scope : Scope) :
    (c.advance scope).arity = c.arity - 1 :=
  Nat.sub_succ c.params.length c.next

/-- The last argument is due if one argument is. -/
theorem next_succ_eq_length_iff
    (c : Closure) :
    c.next + 1 = c.params.length ↔ c.arity = 1 := by
  unfold arity
  omega

/-- The parameter that the next argument is for is there, if there is one to be
supplied. -/
theorem getElem?_next
    {c : Closure}
    (h : c.next < c.params.length) :
    c.params[c.next]? = some c.parameter := by
  rw [parameter, List.getElem!_eq_getElem?_getD, List.getElem?_eq_getElem h]
  rfl

theorem parameter_eq
    {c : Closure} {x : String} {xs : List String}
    (h : c.parameters = x :: xs) :
    c.parameter = x := by
  have hfirst : c.params[c.next]? = some x := by
    rw [← List.head?_drop]
    exact congrArg List.head? h
  rw [parameter, List.getElem!_eq_getElem?_getD, hfirst]
  rfl

/-- How a function is shown when it is inspected. -/
def inspect (c : Closure) : String :=
  "Closure \x7b name: " ++ Text.quoted c.name ++ ", remaining_parameters: " ++
    Text.quotedList c.parameters
    ++ ", body: " ++ Text.quoted c.body.text ++ ", .. \x7d"

end Closure

/-- What a foreign value can hold. -/
inductive Foreign where
  | pattern (steps : List String)
  | text (content : String)
  | size (bytes : Nat)
  | list (items : List String)
  | pair (content : String) (bytes : Nat)
deriving DecidableEq

/-- A value of the host that programs hand through: the full name of its type,
with the paths that lead to it, and what it holds. -/
structure Parcel where
  type : String
  content : Foreign
deriving DecidableEq

namespace Parcel

/-- What stands before the first `::`, or everything if there is none. -/
def beforeColons : List Char → List Char
  | ':' :: ':' :: _ => []
  | c :: cs => c :: beforeColons cs
  | [] => []

/-- The name of the type: what follows the last `::` of the full name. -/
def typeName (p : Parcel) : String :=
  String.ofList (beforeColons p.type.toList.reverse).reverse

end Parcel

/-- A value. -/
inductive Value where
  | unit
  | number (x : Float)
  | text (s : String)
  | function (id : Nat) (closure : Closure)
  | builtin (id : Nat) (name : String) (received : List Value)
  | foreign (id : Nat) (parcel : Parcel)
deriving Inhabited

namespace Value

/-- The name of the sort of value. -/
def typeName : Value → String
  | unit => "unit"
  | number _ => "number"
  | text _ => "string"
  | function _ _ => "function"
  | builtin _ _ _ => "builtin"
  | foreign _ _ => "opaque"

/-- A value as a program shows it. -/
def display : Value → String
  | unit => ""
  | number x => NumberFormat.display.text x
  | text s => s
  | function _ c => "<function " ++ c.name ++ "/" ++ toString c.arity ++ ">"
  | builtin _ name _ => "<builtin " ++ name ++ ">"
  | foreign _ parcel => "<opaque " ++ parcel.typeName ++ ">"

/-- A value with its sort, as it is shown when it is inspected. -/
def inspect : Value → String
  | unit => "Unit"
  | number x => "Number(" ++ NumberFormat.inspect.text x ++ ")"
  | text s => "String(" ++ Text.quoted s ++ ")"
  | function _ c => c.inspect
  | builtin _ name _ => "Builtin(" ++ Text.quoted name ++ ")"
  | foreign _ parcel => "Opaque(" ++ Text.quoted parcel.typeName ++ ")"

/-- Equality of values: by content for unit, numbers and texts, by identity for
all others. -/
def same : Value → Value → Bool
  | unit, unit => true
  | number x, number y => x == y
  | text s, text t => s == t
  | function i _, function j _ => i == j
  | builtin i _ _, builtin j _ _ => i == j
  | foreign i _, foreign j _ => i == j
  | _, _ => false

/-- The number, if the value is one. -/
def number? : Value → Option Float
  | number x => some x
  | _ => none

/-- The function of the language, if the value is one. -/
def closure? : Value → Option Closure
  | function _ c => some c
  | _ => none

/-- The foreign value, if the value is one. -/
def foreign? : Value → Option Parcel
  | foreign _ parcel => some parcel
  | _ => none

end Value

end Curried
