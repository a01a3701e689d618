import Curried.Evaluator

/-!
# The standard host

The functions and operators that the host lends to programs.  A function of
several arguments takes them one at a time: with each but the last it becomes a
host function of the same name that has received one more.
-/

namespace Curried

namespace Parcel

/-- The full name of the type of patterns. -/
def patternType : String :=
  "host::Pattern"

/-- The pattern with the given steps. -/
def pattern (steps : List String) : Parcel :=
  ⟨patternType, .pattern steps⟩

/-- The steps, if what is handed through is a pattern. -/
def steps? (p : Parcel) : Option (List String) :=
  match p.content with
  | .pattern steps => if p.type = patternType then some steps else none
  | _ => none

end Parcel

/-- The steps, if the value is a pattern. -/
def Value.pattern? : Value → Option (List String)
  | foreign _ parcel => parcel.steps?
  | _ => none

namespace Host

namespace Standard

/-- A host function that waits for another argument. -/
def wait (name : String) (received : List Value) (argument : Value) : Action :=
  .make (.builtin name (received ++ [argument])) .give

/-- Reckons with two numbers. -/
def arithmetic (name : String) (f : Float → Float →
    Float) (left right : Value) : Action :=
  match left, right with
  | .number x, .number y => .give (.number (f x y))
  | _, _ =>
      .fail (.raised .type "apply"
        (name ++ " expects two numbers, found " ++ left.typeName ++ " and " ++
          right.typeName))

/-- What the host functions do. -/
def builtin (name : String) (received : List Value) (argument : Value) : Action :=
  match name, received with
  | "add", [a] => arithmetic name (· + ·) a argument
  | "mul", [a] => arithmetic name (· * ·) a argument
  | "id", _ => .give argument
  | "log", _ => .write argument.display (.give argument)
  | "typeof", _ => .give (.text argument.typeName)
  | "void", _ => .give .unit
  | "fail", _ => .fail (.raised .name "host" argument.display)
  | "s", _ =>
      match argument with
      | .text x => .make (.foreign (.pattern [x])) .give
      | v =>
          .fail (.raised .type "apply" ("s expects a string, found " ++
            v.typeName))
  | "const", [a] => .give a
  | "pair", [a] =>
      .give (.text ("<" ++ a.display ++ "," ++ argument.display ++ ">"))
  | "twice", [f] => .andThenCall f argument fun v => .andThenCall f v .give
  | "ifz", [n, f] => .give (if n.same (.number 0) then f else argument)
  | _, _ => wait name received argument

/-- The steps of two patterns, put together by `f`. -/
def combinePatterns (f : List String → List String →
    List String) (left right : Value) : Action :=
  match left.pattern?, right.pattern? with
  | some a, some b => .make (.foreign (.pattern (f a b))) .give
  | some _, none => notPattern right
  | none, _ => notPattern left
where
  notPattern (v : Value) : Action :=
    .fail (.raised .type "infix" ("expected a pattern, found " ++ v.typeName))

/-- What the host operators do. -/
def operator (name symbol : String) (left right : Value) : Action :=
  match name with
  | "left" => .give left
  | "right" => .give right
  | "show" =>
      .give (.text ("(" ++ left.display ++ " " ++ symbol ++ " " ++
        right.display ++ ")"))
  | "types" => .give (.text (left.typeName ++ "," ++ right.typeName))
  | "pipe" => .andThenCall right left .give
  | "apply" => .andThenCall left right .give
  | "eq" => .give (.number (if left.same right then 1 else 0))
  | "fail" =>
      .fail (.raised .unknownOperator symbol (left.display ++ " and " ++
        right.display))
  | "append" => combinePatterns (· ++ ·) left right
  | "zip" => combinePatterns (List.zipWith fun x y => x ++ ":" ++ y) left right
  | _ => .give .unit

end Standard

/-- The host with the standard functions and operators. -/
def standard : Host :=
  ⟨Standard.builtin, Standard.operator⟩

end Host

/-- The host functions of the prelude. -/
def preludeNames : List String :=
  ["add", "mul"]

/-- Binds the host functions of the prelude in a scope. -/
def installPrelude (scope : Scope) : EvalM Unit :=
  preludeNames.forM fun name => do
    let v ← (Blueprint.builtin name []).make
    EvalM.define scope name v

end Curried
