import Curried.Interpreter
import Curried.Proofs.Lexical

/-!
# What a node asks for

The evaluator first looks at the tag of a node and at the shape of its children,
and only then does something.  Here the two are taken apart.

**Plans.**  `Tree.plan` is the looking: it says in one of nine ways what is to
be done, all errors of shape together being one of them.  `Plan.run` is the
doing.

**Results.**
* `evalTree_eq_plan`: evaluating a node is writing the visit down and carrying
  its plan out.
* `Tree.planned`: which plan comes from a node of which kind, with which
  children.
* `Tree.plan_induction`: what holds of a node whenever it holds of the parts
  that its plan evaluates holds of all nodes.
* `integerValue_of_isInteger`, `textValue_of_isText`, `plan_function`,
  `plan_bind`: literals and declarations as programs have them have the right
  shape.
-/

namespace Curried

/-- What is to be done with a node. -/
inductive Plan where
  | fail (error : EvalError)
  | give (value : Value)
  | look (name : String)
  | sequence (parts : List Tree)
  | define (name parameter : String) (others : List String) (body : Tree)
  | bind (name : String) (value : Tree)
  | operate (left : Tree) (symbol : String) (right : Tree)
  | apply (function argument : Tree)
  | pass (inner : Tree)

namespace Plan

/-- The plan that gives a value or fails, as has been settled already. -/
def ofExcept : Except EvalError Value → Plan
  | .ok v => .give v
  | .error e => .fail e

/-- The plan for a function of the given name, parameters and body. -/
def ofFunction (name patterns body : Tree) : Plan :=
  if name.kind ≠ .identifier then
    .fail (.wrongTarget .functionName name.tag)
  else
    match parameterNames patterns.children with
    | .error e => .fail e
    | .ok [] => .fail .noParameters
    | .ok (parameter :: others) => .define name.text parameter others body

/-- The plan for binding a name to a value. -/
def ofBind (target value : Tree) : Plan :=
  if target.kind ≠ .identifier then
    .fail (.wrongTarget .bound target.tag)
  else if value.kind ≠ .equation then
    .fail (.notEquation value.tag)
  else
    .bind target.text value

/-- The plan for an equation. -/
def ofEquation (sign body : Tree) : Plan :=
  if sign.text = "=" then
    .pass body
  else
    .fail (.badSign sign.text)

/-- The nodes that a plan evaluates in the scope in which it is carried out.
The body of a function is not among them. -/
def parts : Plan → List Tree
  | .sequence parts => parts
  | .bind _ value => [value]
  | .operate left _ right => [left, right]
  | .apply function argument => [function, argument]
  | .pass inner => [inner]
  | _ => []

/-- The name that a plan binds. -/
def target? : Plan → Option String
  | .define name _ _ _ => some name
  | .bind name _ => some name
  | _ => none

/-- Carries a plan out. -/
def run (host : Host) (call : Caller) (table : Table) (scope : Scope) :
    Plan → EvalM Value
  | .fail e => EvalM.fail e
  | .give v => pure v
  | .look name => lookupName scope name
  | .sequence parts => evalEach host call table scope parts .unit
  | .define name parameter others body => do
      EvalM.record (.define name (parameter :: others))
      let v ← EvalM.makeFunction ⟨name, parameter :: others, 0, body, scope, table⟩
      EvalM.define scope name v
      pure v
  | .bind name value => do
      let v ← evalTree host call table scope value
      EvalM.record (.bind name v)
      EvalM.define scope name v
      pure v
  | .operate left symbol right => do
      let l ← evalTree host call table scope left
      let r ← evalTree host call table scope right
      applyOperator host call table symbol l r
  | .apply function argument => do
      let f ← evalTree host call table scope function
      let a ← evalTree host call table scope argument
      call "apply" f a
  | .pass inner => evalTree host call table scope inner

end Plan

namespace Tree

/-- What is to be done with a node. -/
def plan : Tree → Plan
  | ⟨tag, text, children⟩ =>
      match Kind.ofTag tag, children with
      | .declarations, parts => .sequence parts
      | .integer, [] => .ofExcept (integerValue text)
      | .text, [] => .ofExcept (textValue text)
      | .identifier, [] => .look text
      | .function, [name, patterns, body] => .ofFunction name patterns body
      | .equation, [sign, body] => .ofEquation sign body
      | .bind, [target, value] => .ofBind target value
      | .infixOp, [left, operator, right] => .operate left operator.text right
      | .apply, [function, argument] => .apply function argument
      | .parens, [_, inner, _] => .pass inner
      | .other, [only] => .pass only
      | .other, [] => .fail (.unsupportedLeaf tag text)
      | .other, _ => .fail (.unsupportedBranch tag children.length)
      | .integer, _ | .text, _ | .identifier, _ =>
          .fail (.notLeaf tag children.length)
      | .equation, _ | .bind, _ | .apply, _ =>
          .fail (.childCount tag 2 children.length)
      | .function, _ | .infixOp, _ | .parens, _ =>
          .fail (.childCount tag 3 children.length)

end Tree

theorem evalTree_eq_plan
    (host : Host) (call : Caller) (table : Table) (scope : Scope) (t : Tree) :
    evalTree host call table scope t =
      (do
        EvalM.record (.visit t.tag t.text)
        t.plan.run host call table scope) := by
  obtain ⟨tag, text, children⟩ := t
  rw [evalTree.eq_def, Tree.plan.eq_def]
  refine congrArg (EvalM.record (.visit tag text) >>= ·) (funext fun _ => ?_)
  dsimp only
  -- each kind of node settles how many children have to be told apart
  cases Kind.ofTag tag with
  | declarations =>
      rfl
  | integer =>
      rcases children with _ | ⟨_, _⟩
      · dsimp only
        cases integerValue text <;> rfl
      · rfl
  | text =>
      rcases children with _ | ⟨_, _⟩
      · dsimp only
        cases textValue text <;> rfl
      · rfl
  | identifier =>
      rcases children with _ | ⟨_, _⟩ <;> rfl
  | function =>
      rcases children
        with _ | ⟨name, _ | ⟨patterns, _ | ⟨body, _ | ⟨_, _⟩⟩⟩⟩ <;> try rfl
      simp only [Plan.ofFunction, defineFunction]
      split
      · rfl
      · rcases parameterNames patterns.children with _ | _ | ⟨_, _⟩ <;> rfl
  | equation =>
      rcases children with _ | ⟨sign, _ | ⟨body, _ | ⟨_, _⟩⟩⟩ <;> try rfl
      simp only [Plan.ofEquation]
      split <;> rfl
  | bind =>
      rcases children with _ | ⟨target, _ | ⟨value, _ | ⟨_, _⟩⟩⟩ <;> try rfl
      simp only [Plan.ofBind]
      split
      · rfl
      · split <;> rfl
  | infixOp =>
      rcases children with _ | ⟨_, _ | ⟨_, _ | ⟨_, _ | ⟨_, _⟩⟩⟩⟩ <;> rfl
  | apply =>
      rcases children with _ | ⟨_, _ | ⟨_, _ | ⟨_, _⟩⟩⟩ <;> rfl
  | parens =>
      rcases children with _ | ⟨_, _ | ⟨_, _ | ⟨_, _ | ⟨_, _⟩⟩⟩⟩ <;> rfl
  | other =>
      rcases children with _ | ⟨_, _ | ⟨_, _⟩⟩ <;> rfl

namespace Tree

/-- How a plan comes from a node: from a node of which kind, with which
children. -/
inductive Planned (t : Tree) : Plan → Prop
  | fail (e : EvalError) :
      Planned t (.fail e)
  | integer {v : Value} :
      t.kind = .integer → t.children = [] → integerValue t.text = .ok v →
      Planned t (.give v)
  | text {v : Value} :
      t.kind = .text → t.children = [] → textValue t.text = .ok v →
      Planned t (.give v)
  | identifier :
      t.kind = .identifier → t.children = [] →
      Planned t (.look t.text)
  | declarations :
      t.kind = .declarations →
      Planned t (.sequence t.children)
  | function {name patterns body : Tree} {parameter : String}
      {others : List String} :
      t.kind = .function → t.children = [name, patterns, body] →
      name.kind = .identifier →
      parameterNames patterns.children = .ok (parameter :: others) →
      Planned t (.define name.text parameter others body)
  | bind {target value : Tree} :
      t.kind = .bind → t.children = [target, value] →
      target.kind = .identifier → value.kind = .equation →
      Planned t (.bind target.text value)
  | infixOp {left operator right : Tree} :
      t.kind = .infixOp → t.children = [left, operator, right] →
      Planned t (.operate left operator.text right)
  | apply {function argument : Tree} :
      t.kind = .apply → t.children = [function, argument] →
      Planned t (.apply function argument)
  | equation {sign body : Tree} :
      t.kind = .equation → t.children = [sign, body] → sign.text = "=" →
      Planned t (.pass body)
  | parens {opening inner closing : Tree} :
      t.kind = .parens → t.children = [opening, inner, closing] →
      Planned t (.pass inner)
  | wrapper {only : Tree} :
      t.kind = .other → t.children = [only] →
      Planned t (.pass only)

theorem planned
    (t : Tree) :
    Planned t t.plan := by
  obtain ⟨tag, text, children⟩ := t
  rw [plan.eq_def]
  dsimp only
  cases hk : Kind.ofTag tag with
  | declarations =>
      exact .declarations hk
  | integer =>
      rcases children with _ | ⟨_, _⟩
      · cases hv : integerValue text with
        | ok v => exact .integer hk rfl hv
        | error e => exact .fail e
      · exact .fail _
  | text =>
      rcases children with _ | ⟨_, _⟩
      · cases hv : textValue text with
        | ok v => exact .text hk rfl hv
        | error e => exact .fail e
      · exact .fail _
  | identifier =>
      rcases children with _ | ⟨_, _⟩
      · exact .identifier hk rfl
      · exact .fail _
  | function =>
      rcases children
        with _ | ⟨name, _ | ⟨patterns, _ | ⟨body, _ | ⟨_, _⟩⟩⟩⟩ <;>
        try exact .fail _
      dsimp only [Plan.ofFunction]
      split
      · exact .fail _
      · rename_i hn
        rcases hp : parameterNames patterns.children with e | _ |
          ⟨parameter, others⟩
        · exact .fail e
        · exact .fail _
        · exact .function hk rfl (Decidable.not_not.1 hn) hp
  | equation =>
      rcases children with _ | ⟨sign, _ | ⟨body, _ | ⟨_, _⟩⟩⟩ <;> try exact .fail _
      dsimp only [Plan.ofEquation]
      split
      · rename_i hs
        exact .equation hk rfl hs
      · exact .fail _
  | bind =>
      rcases children with _ | ⟨target, _ | ⟨value, _ | ⟨_, _⟩⟩⟩ <;>
        try exact .fail _
      dsimp only [Plan.ofBind]
      split
      · exact .fail _
      · rename_i ht
        split
        · exact .fail _
        · rename_i hv
          exact .bind hk rfl (Decidable.not_not.1 ht) (Decidable.not_not.1 hv)
  | infixOp =>
      rcases children with _ | ⟨_, _ | ⟨_, _ | ⟨_, _ | ⟨_, _⟩⟩⟩⟩ <;>
        try exact .fail _
      exact .infixOp hk rfl
  | apply =>
      rcases children with _ | ⟨_, _ | ⟨_, _ | ⟨_, _⟩⟩⟩ <;> try exact .fail _
      exact .apply hk rfl
  | parens =>
      rcases children with _ | ⟨_, _ | ⟨_, _ | ⟨_, _ | ⟨_, _⟩⟩⟩⟩ <;>
        try exact .fail _
      exact .parens hk rfl
  | other =>
      rcases children with _ | ⟨_, _ | ⟨_, _⟩⟩ <;> try exact .fail _
      exact .wrapper hk rfl

/-- What the plan of a node evaluates are children of the node. -/
theorem parts_subset_children
    (t : Tree) :
    t.plan.parts ⊆ t.children := by
  have h := t.planned
  generalize t.plan = p at h
  intro c hc
  cases h <;> simp_all [Plan.parts]
  case infixOp => exact hc.imp_right Or.inr

/-- What holds of a node whenever it holds of all that its plan evaluates holds
of every node. -/
theorem plan_induction
    {motive : Tree → Prop}
    (step : ∀ t : Tree, (∀ c ∈ t.plan.parts, motive c) → motive t)
    (t : Tree) :
    motive t :=
  step t fun c hc =>
    have : sizeOf c < sizeOf t := by
      have h := List.sizeOf_lt_of_mem (parts_subset_children t hc)
      obtain ⟨tag, text, children⟩ := t
      simp only [Tree.mk.sizeOf_spec] at h ⊢
      omega
    plan_induction step c
termination_by sizeOf t

end Tree

theorem integerValue_of_isInteger
    {w : String}
    (hw : Lexeme.isInteger w.toList = true) :
    integerValue w = .ok (.number (Numeral.ofDigits w.toList)) := by
  simp only [Lexeme.isInteger, Bool.and_eq_true, Bool.not_eq_true'] at hw
  simp [integerValue, hw.1, hw.2]

theorem textValue_of_isText
    {w : String}
    (hw : Lexeme.isText w.toList = true) :
    ∃ s, textValue w = .ok (.text s) := by
  obtain ⟨body, hbody, -⟩ := Lexeme.isText_iff.1 hw
  exact ⟨String.ofList body, by simp [textValue, unquote?, hbody]⟩

theorem parameterNames_leaves
    (names : List String) :
    parameterNames (names.map (.leaf "variable")) = .ok names := by
  induction names with
  | nil => rfl
  | cons x names ih =>
      have hkind : (Tree.leaf "variable" x).kind = .identifier := rfl
      rw [List.map_cons, parameterNames, if_pos hkind, ih]
      rfl

theorem plan_function
    (text text' name parameter : String) (others : List String) (body : Tree) :
    Tree.plan ⟨"function", text, [.leaf "variable" name,
      ⟨"patterns", text', (parameter :: others).map (.leaf "variable")⟩, body]⟩ =
      .define name parameter others body := by
  change Plan.ofFunction _ _ _ = _
  simp only [Plan.ofFunction, parameterNames_leaves]
  rfl

theorem plan_bind
    (text name : String) {m : Tree}
    (hm : m.kind = .equation) :
    Tree.plan ⟨"bind", text, [.leaf "variable" name, m]⟩ = .bind name m := by
  have htarget : (Tree.leaf "variable" name).kind = .identifier := rfl
  change Plan.ofBind (.leaf "variable" name) m = .bind name m
  simp only [Plan.ofBind, htarget, hm, ne_eq, not_true_eq_false, if_false]
  rfl

/-- Evaluating the tree of a program is evaluating its declarations one after
the other. -/
theorem evaluate_declarations
    (host : Host) (table : Table) (scope : Scope) (text : String)
    (ts : List Tree) (m : Machine) :
    evaluate host table scope ⟨"declarations", text, ts⟩ m =
      evalEach host (callValue host callAllowance) table scope ts .unit
        (m.record (.visit "declarations" text)) := by
  rw [evaluate, evalTree_eq_plan]
  rfl

end Curried
