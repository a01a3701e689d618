import Curried.Text.Quoted

/-!
# Errors of evaluation

Why an evaluation failed.  Each cause has a kind, the tag of the node that is
blamed, and a text with the details.
-/

namespace Curried

/-- The kinds of error. -/
inductive ErrorKind where
  | shape
  | unsupportedNode
  | unknownOperator
  | type
  | name
  | recursion
deriving DecidableEq

namespace ErrorKind

/-- The name of a kind of error. -/
def label : ErrorKind → String
  | shape => "ShapeError"
  | unsupportedNode => "UnsupportedNodeError"
  | unknownOperator => "UnknownOperatorError"
  | type => "TypeError"
  | name => "NameError"
  | recursion => "RecursionError"

end ErrorKind

/-- How many function bodies may be under evaluation at once. -/
def recursionLimit : Nat :=
  4096

/-- The places in which only a name may stand. -/
inductive Target where
  | bound
  | functionName
  | parameter
deriving DecidableEq

namespace Target

/-- The place in words. -/
def label : Target → String
  | bound => "bind target"
  | functionName => "function name"
  | parameter => "parameter"

/-- The tag of the node that the place belongs to. -/
def tag : Target → String
  | bound => "bind"
  | functionName => "function"
  | parameter => "function"

end Target

/-- The cause of a failed evaluation. -/
inductive EvalError where
  /-- A node must have exactly so many children. -/
  | childCount (tag : String) (expected found : Nat)
  /-- A node must have no children. -/
  | notLeaf (tag : String) (found : Nat)
  /-- The text of an integer must be ASCII digits. -/
  | badInteger (text : String)
  /-- The text of a text node must stand between quotes. -/
  | badText (text : String)
  /-- The first child of an equation must be the equals sign. -/
  | badSign (text : String)
  /-- The second child of a bind node must be an equation. -/
  | notEquation (tag : String)
  /-- A function must have a parameter. -/
  | noParameters
  /-- A leaf whose tag has no meaning. -/
  | unsupportedLeaf (tag text : String)
  /-- A node with several children whose tag has no meaning. -/
  | unsupportedBranch (tag : String) (found : Nat)
  /-- An operator without meaning. -/
  | unknownOperator (symbol : String)
  /-- A value that cannot be called. -/
  | notCallable (tag typeName : String)
  /-- Too many function bodies under evaluation. -/
  | recursionLimit
  /-- Something other than a name where only a name may stand. -/
  | wrongTarget (target : Target) (found : String)
  /-- Operands to which an operator does not apply. -/
  | operands (symbol left right : String)
  /-- A name without value. -/
  | undefined (name : String)
  /-- An error that the host raised. -/
  | raised (kind : ErrorKind) (tag detail : String)
deriving DecidableEq

namespace EvalError

/-- The kind of an error. -/
def kind : EvalError → ErrorKind
  | childCount _ _ _ => .shape
  | notLeaf _ _ => .shape
  | badInteger _ => .shape
  | badText _ => .shape
  | badSign _ => .shape
  | notEquation _ => .shape
  | noParameters => .shape
  | unsupportedLeaf _ _ => .unsupportedNode
  | unsupportedBranch _ _ => .unsupportedNode
  | unknownOperator _ => .unknownOperator
  | notCallable _ _ => .type
  | recursionLimit => .recursion
  | wrongTarget _ _ => .type
  | operands _ _ _ => .type
  | undefined _ => .name
  | raised kind _ _ => kind

/-- The tag of the node that is blamed. -/
def tag : EvalError → String
  | childCount tag _ _ => tag
  | notLeaf tag _ => tag
  | badInteger _ => "integer"
  | badText _ => "string"
  | badSign _ => "match"
  | notEquation _ => "bind"
  | noParameters => "function"
  | unsupportedLeaf tag _ => tag
  | unsupportedBranch tag _ => tag
  | unknownOperator _ => "infix"
  | notCallable tag _ => tag
  | recursionLimit => "apply"
  | wrongTarget target _ => target.tag
  | operands _ _ _ => "infix"
  | undefined _ => "variable"
  | raised _ tag _ => tag

/-- What went wrong. -/
def detail : EvalError → String
  | childCount _ expected found =>
      "expected " ++ toString expected ++ " children, found " ++
        toString found ++ " children"
  | notLeaf _ found => "expected a leaf, found " ++ toString found ++ " children"
  | badInteger text => Text.quoted text ++ " is not a base-10 integer"
  | badText text => Text.quoted text ++ " is not a quoted string"
  | badSign text =>
      "only simple assignments are supported, found " ++ Text.quoted text
  | notEquation tag => "expected match as second child, found `" ++ tag ++ "`"
  | noParameters => "expected at least one parameter"
  | unsupportedLeaf _ text => "unhandled leaf type with text " ++ Text.quoted text
  | unsupportedBranch _ found =>
      "unhandled branch type with " ++ toString found ++ " children"
  | unknownOperator symbol => "unexpected infix operator " ++ symbol
  | notCallable _ typeName =>
      "expected a function in call position, found " ++ typeName
  | recursionLimit =>
      "recursion depth exceeded " ++ toString Curried.recursionLimit ++
        " nested calls"
  | wrongTarget target found =>
      "expected variable as " ++ target.label ++ ", found `" ++ found ++ "`"
  | operands symbol left right =>
      "operator " ++ symbol ++ " does not apply to " ++ left ++ " and " ++ right
  | undefined name => name ++ " is not defined"
  | raised _ _ detail => detail

/-- The text of an error: its kind, the node that is blamed, and what went
wrong. -/
def message (e : EvalError) : String :=
  e.kind.label ++ " in `" ++ e.tag ++ "` node: " ++ e.detail

end EvalError

end Curried
