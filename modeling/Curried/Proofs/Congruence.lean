import Curried.Proofs.Plan
import Curried.Proofs.Runs

/-!
# Congruences of computations

Evaluating a tree is putting a few simple computations together, and calls.  A
relation between computations that holds of the simple ones and is kept by
putting them together therefore holds between any two evaluations of one tree
that differ in their calls only in related ways.  A property of computations is
such a relation too, one that looks at one side only.

**Congruences.**  `Compositional` lists what is asked of such a relation by
evaluation itself.  Host functions may also go on after a call that failed:
where catching errors is kept too, the relation is a `Congruence`.
`Compositional.Serves` asks of a host only that what it does is related wherever
its calls are, which every host does for a congruence.

**Results.**
* `Compositional.evalTree`: evaluations of one tree are related if their calls
  are and the host serves.
* `Compositional.callValue_succ`: if moreover making a frame and entering a body
  are kept, so are calls, one level up.
* `Congruence.evalTree` and `Congruence.callValue`: the same for any host, and
  for all calls.
-/

namespace Curried

/-- A relation between computations that holds of each simple one and itself,
and that is kept by sequences. -/
structure Compositional where
  rel : {α : Type} → EvalM α → EvalM α → Prop
  pure : ∀ {α : Type} (a : α), rel (pure a) (pure a)
  fail : ∀ {α : Type} (e : EvalError), rel (EvalM.fail e : EvalM α) (EvalM.fail e)
  bind : ∀ {α β : Type} {x y : EvalM α} {f g : α → EvalM β},
    rel x y → (∀ a, rel (f a) (g a)) → rel (x >>= f) (y >>= g)
  lookup : ∀ (scope : Scope) (name : String),
    rel (EvalM.gets fun m => m.store.lookup scope name) (EvalM.gets fun m =>
      m.store.lookup scope name)
  record : ∀ e : Happening, e ≠ .enter → e ≠ .leave →
    rel (EvalM.record e) (EvalM.record e)
  write : ∀ line : String,
    rel (EvalM.update (·.write line)) (EvalM.update (·.write line))
  fresh : rel EvalM.fresh EvalM.fresh
  define : ∀ (scope : Scope) (name : String) (value : Value),
    rel (EvalM.define scope name value) (EvalM.define scope name value)

/-- A compositional relation that is also kept by catching errors. -/
structure Congruence extends Compositional where
  attempt : ∀ {α : Type} {x y : EvalM α}, rel x y → rel x.attempt y.attempt

/-- A host function that calls nothing. -/
def Action.CallFree : Action → Prop
  | .give _ => True
  | .fail _ => True
  | .call _ _ _ => False
  | .write _ next => CallFree next
  | .make blueprint next => ∀ id, CallFree (next (blueprint.value id))

/-- Making a value and going on with it is taking a number and going on with the
value of that number. -/
theorem Action.run_make
    (call : Caller) (blueprint : Blueprint) (next : Value → Action) :
    (Action.make blueprint next).run call =
      (do
        let id ← EvalM.fresh
        (next (blueprint.value id)).run call) := by
  rfl

/-- What the host does is related wherever the calls it makes are. -/
structure Compositional.Serves (R : Compositional) (host : Host) : Prop where
  builtin : ∀ {call call' : Caller},
    (∀ tag callee argument,
      R.rel (call tag callee argument) (call' tag callee argument)) →
    ∀ name received argument,
      R.rel ((host.builtin name received argument).run call)
        ((host.builtin name received argument).run call')
  operator : ∀ {call call' : Caller},
    (∀ tag callee argument,
      R.rel (call tag callee argument) (call' tag callee argument)) →
    ∀ name symbol left right,
      R.rel ((host.operator name symbol left right).run call)
        ((host.operator name symbol left right).run call')

namespace Compositional

variable (R : Compositional) {call call' : Caller}

theorem ofExcept
    {α : Type} (r : Except EvalError α) :
    R.rel (EvalM.ofExcept r) (EvalM.ofExcept r) := by
  cases r with
  | ok a => exact R.pure a
  | error e => exact R.fail e

theorem makeFunction
    (c : Closure) :
    R.rel (EvalM.makeFunction c) (EvalM.makeFunction c) :=
  R.bind R.fresh fun _ => R.pure _

theorem lookupName
    (scope : Scope) (name : String) :
    R.rel (lookupName scope name) (lookupName scope name) := by
  refine R.bind (R.lookup scope name) fun found => ?_
  cases found with
  | some v => exact R.pure v
  | none => exact R.fail _

/-- A host function that calls nothing does not depend on how values are
called. -/
theorem callFree
    {a : Action} (ha : a.CallFree) :
    R.rel (a.run call) (a.run call') := by
  induction a with
  | give v =>
      exact R.pure v
  | fail e =>
      exact R.fail e
  | call =>
      exact ha.elim
  | write line next ih =>
      exact R.bind (R.write line) fun _ => ih ha
  | make blueprint next ih =>
      rw [Action.run_make, Action.run_make]
      exact R.bind R.fresh fun id => ih _ (ha id)

section Calls

variable (hcall : ∀ tag callee argument,
  R.rel (call tag callee argument) (call' tag callee argument))
include hcall

theorem applyOperator
    {host : Host} (hhost : R.Serves host) (table : Table) (symbol : String)
    (left right : Value) :
    R.rel (applyOperator host call table symbol left right)
      (applyOperator host call' table symbol left right) := by
  unfold Curried.applyOperator
  split
  · exact hhost.operator hcall _ symbol left right
  · split
    · exact R.fail _
    · exact hcall "infix" left right
    · exact R.ofExcept _

omit hcall in
theorem evalEach
    {host : Host} {table : Table} {scope : Scope} :
    ∀ (ts : List Tree) (last : Value),
      (∀ t ∈ ts, R.rel (evalTree host call table scope t)
        (evalTree host call' table scope t)) →
      R.rel (evalEach host call table scope ts last)
        (evalEach host call' table scope ts last)
  | [], last, _ => by
      rw [Curried.evalEach, Curried.evalEach]
      exact R.pure last
  | t :: ts, _, h => by
      rw [Curried.evalEach, Curried.evalEach]
      refine R.bind (h t (by simp)) fun v => ?_
      exact evalEach ts v fun t' ht' => h t' (by simp [ht'])

/-- Evaluations of one tree are related if their calls are. -/
theorem evalTree
    {host : Host} (hhost : R.Serves host) (table : Table) (scope : Scope)
    (t : Tree) :
    R.rel (evalTree host call table scope t)
      (evalTree host call' table scope t) := by
  induction t using Tree.plan_induction with
  | step t ih =>
      rw [evalTree_eq_plan, evalTree_eq_plan]
      refine R.bind (R.record _ (by simp) (by simp)) fun _ => ?_
      cases hplan : t.plan with
      | fail e =>
          exact R.fail e
      | give v =>
          exact R.pure v
      | look name =>
          exact R.lookupName scope name
      | sequence ts =>
          rw [hplan] at ih
          exact R.evalEach ts .unit ih
      | define name parameter others body =>
          refine R.bind (R.record _ (by simp) (by simp)) fun _ => ?_
          refine R.bind (R.makeFunction _) fun v => ?_
          exact R.bind (R.define scope name v) fun _ => R.pure v
      | bind name value =>
          rw [hplan] at ih
          refine R.bind (ih value (by simp [Plan.parts])) fun v => ?_
          refine R.bind (R.record _ (by simp) (by simp)) fun _ => ?_
          exact R.bind (R.define scope name v) fun _ => R.pure v
      | operate left symbol right =>
          rw [hplan] at ih
          refine R.bind (ih left (by simp [Plan.parts])) fun v => ?_
          refine R.bind (ih right (by simp [Plan.parts])) fun w => ?_
          exact R.applyOperator hcall hhost table symbol v w
      | apply function argument =>
          rw [hplan] at ih
          refine R.bind (ih function (by simp [Plan.parts])) fun v => ?_
          refine R.bind (ih argument (by simp [Plan.parts])) fun w => ?_
          exact hcall "apply" v w
      | pass inner =>
          rw [hplan] at ih
          exact ih inner (by simp [Plan.parts])

end Calls

/-- Where making a frame and entering a body are kept as well, calls that may
nest one level deeper are related if the calls that their bodies make are. -/
theorem callValue_succ
    (hextend : ∀ scope name value,
      R.rel (EvalM.extendScope scope name value)
        (EvalM.extendScope scope name value))
    (hnested : ∀ {x y : EvalM Value}, R.rel x y → R.rel x.nested y.nested)
    {host : Host} (hhost : R.Serves host) {n k : Nat}
    (hcall : ∀ tag callee argument,
      R.rel (callValue host n tag callee argument)
        (callValue host k tag callee argument))
    (tag : String) (callee argument : Value) :
    R.rel (callValue host (n + 1) tag callee argument)
      (callValue host (k + 1) tag callee argument) := by
  cases callee with
  | function id c =>
      rw [Curried.callValue, Curried.callValue]
      refine R.bind (hextend _ _ _) fun scope => ?_
      split
      · exact hnested (R.evalTree hcall hhost c.table scope c.body)
      · exact R.makeFunction _
  | builtin id name received =>
      exact hhost.builtin hcall name received argument
  | unit | number _ | text _ | foreign _ _ =>
      exact R.fail _

/-- Then all calls are related to themselves. -/
theorem callValue
    (hextend : ∀ scope name value,
      R.rel (EvalM.extendScope scope name value)
        (EvalM.extendScope scope name value))
    (hnested : ∀ {x y : EvalM Value}, R.rel x y → R.rel x.nested y.nested)
    (hexhausted : R.rel (EvalM.exhausted : EvalM Value) EvalM.exhausted)
    {host : Host} (hhost : R.Serves host) (n : Nat) :
    ∀ tag callee argument,
      R.rel (callValue host n tag callee argument)
        (callValue host n tag callee argument) := by
  induction n with
  | zero => exact fun _ _ _ => hexhausted
  | succ n ih => exact R.callValue_succ hextend hnested hhost ih

end Compositional

namespace Congruence

variable (R : Congruence) {call call' : Caller}

section Calls

variable (hcall : ∀ tag callee argument,
  R.rel (call tag callee argument) (call' tag callee argument))
include hcall

theorem action (a : Action) : R.rel (a.run call) (a.run call') := by
  induction a with
  | give v =>
      exact R.pure v
  | fail e =>
      exact R.fail e
  | call callee argument next ih =>
      exact R.bind (R.attempt (hcall "apply" callee argument)) ih
  | write line next ih =>
      exact R.bind (R.write line) fun _ => ih
  | make blueprint next ih =>
      rw [Action.run_make, Action.run_make]
      exact R.bind R.fresh fun id => ih _

omit hcall in
/-- Every host serves a congruence. -/
theorem serves (host : Host) : R.Serves host where
  builtin := fun hcall _ _ _ => R.action hcall _
  operator := fun hcall _ _ _ _ => R.action hcall _

/-- Evaluations of one tree are related if their calls are. -/
theorem evalTree
    (host : Host) (table : Table) (scope : Scope) (t : Tree) :
    R.rel (evalTree host call table scope t) (evalTree host call' table scope t) :=
  R.toCompositional.evalTree hcall (R.serves host) table scope t

end Calls

/-- Where making a frame and entering a body are kept as well, all calls are
related to themselves. -/
theorem callValue
    (hextend : ∀ scope name value,
      R.rel (EvalM.extendScope scope name value)
        (EvalM.extendScope scope name value))
    (hnested : ∀ {x y : EvalM Value}, R.rel x y → R.rel x.nested y.nested)
    (hexhausted : R.rel (EvalM.exhausted : EvalM Value) EvalM.exhausted)
    (host : Host) (n : Nat) (tag : String) (callee argument : Value) :
    R.rel (callValue host n tag callee argument)
      (callValue host n tag callee argument) :=
  R.toCompositional.callValue hextend hnested hexhausted (R.serves host) n tag
    callee argument

end Congruence

end Curried
