import Curried.Proofs.Plan
import Curried.Proofs.Runs
import Curried.Proofs.StoreGrowth

/-!
# The frame law

What an evaluation does to the frames that were there before it.

**Calls.**  A call changes no earlier frame at all: its arguments and everything
that its body binds go into frames of its own.

**Trees.**  Evaluating a tree in a scope changes the frame of that scope only.
There it binds at most the names that the tree itself binds, bodies of functions
apart.

This holds for every tree, every scope and every store, whatever functions the
host has and whatever they call, and whether the evaluation gives a value or an
error.  Nothing is asked of the store: the scopes that functions have captured
may even be missing from it.

**Result.**  `evaluate_frame_law`.
-/

namespace Curried

namespace Tree

/-- A tree writes a name if it has, outside the bodies of functions, a `bind`
node with that target or a `function` node with that name.  The body of a
function is its third child. -/
inductive Writes (x : String) : Tree → Prop
  | bind {t target : Tree} :
      t.kind = .bind → t.children.head? = some target → target.text = x →
      Writes x t
  | function {t name : Tree} :
      t.kind = .function → t.children.head? = some name → name.text = x →
      Writes x t
  | child {t c : Tree} {i : Nat} :
      t.children[i]? = some c → ¬ (t.kind = .function ∧ i = 2) → Writes x c →
      Writes x t

theorem writes_of_target?
    {t : Tree} {x : String}
    (h : t.plan.target? = some x) :
    Writes x t := by
  have hp := t.planned
  generalize t.plan = p at h hp
  cases hp <;> simp [Plan.target?] at h
  case function name patterns body parameter others hk hc _ _ =>
      exact .function hk (by rw [hc]; rfl) h
  case bind target value hk hc _ _ =>
      exact .bind hk (by rw [hc]; rfl) h

theorem writes_of_mem_parts
    {t c : Tree} {x : String}
    (hc : c ∈ t.plan.parts) (h : Writes x c) :
    Writes x t := by
  have hfunction : t.kind ≠ .function := by
    intro hk
    have hp := t.planned
    generalize t.plan = p at hc hp
    cases hp <;> simp_all [Plan.parts]
  obtain ⟨i, hi⟩ := List.mem_iff_getElem?.1 (parts_subset_children t hc)
  exact .child hi (fun hk => hfunction hk.1) h

end Tree

open EvalM

section Trees

variable {P : Store → Store → Prop} [IsPreorder Store P]

theorem evalEach_within
    {host : Host} {call : Caller} {table : Table} {scope : Scope} :
    ∀ (ts : List Tree) (last : Value),
      (∀ t ∈ ts, Within P (evalTree host call table scope t)) →
      Within P (evalEach host call table scope ts last)
  | [], last, _ => by
      rw [evalEach]
      exact .pure last
  | t :: ts, _, h => by
      rw [evalEach]
      refine .bind (h t (by simp)) fun v => ?_
      exact evalEach_within ts v fun t' ht' => h t' (by simp [ht'])

/-- Carrying a plan out changes the store by calls, by its parts, and by binding
its name. -/
theorem Plan.run_within
    {host : Host} {call : Caller} {table : Table} {scope : Scope}
    (hcall : ∀ tag callee argument, Within P (call tag callee argument))
    (p : Plan)
    (htarget : ∀ x v, p.target? = some x → Within P (EvalM.define scope x v))
    (hparts : ∀ t ∈ p.parts, Within P (evalTree host call table scope t)) :
    Within P (p.run host call table scope) := by
  cases p with
  | fail e =>
      exact .fail e
  | give v =>
      exact .pure v
  | look name =>
      exact .lookupName scope name
  | sequence ts =>
      exact evalEach_within ts .unit hparts
  | define name parameter others body =>
      refine .bind (.record _) fun _ => ?_
      refine .bind (.makeFunction _) fun v => ?_
      exact .bind (htarget name v rfl) fun _ => .pure v
  | bind name value =>
      refine .bind (hparts value (by simp [Plan.parts])) fun v => ?_
      refine .bind (.record _) fun _ => ?_
      exact .bind (htarget name v rfl) fun _ => .pure v
  | operate left symbol right =>
      refine .bind (hparts left (by simp [Plan.parts])) fun l => ?_
      refine .bind (hparts right (by simp [Plan.parts])) fun r => ?_
      exact .applyOperator hcall host table symbol l r
  | apply function argument =>
      refine .bind (hparts function (by simp [Plan.parts])) fun f => ?_
      refine .bind (hparts argument (by simp [Plan.parts])) fun a => ?_
      exact hcall _ f a
  | pass inner =>
      exact hparts inner (by simp [Plan.parts])

variable (host : Host) {call : Caller}
  (hcall : ∀ tag callee argument, Within Store.Extends (call tag callee argument))
include hcall

/-- Evaluating a tree changes the frame of its scope only, and there only the
names that the tree writes, provided that calls change no frame. -/
theorem evalTree_keeps
    (table : Table) (scope : Scope) (t : Tree) :
    Within (Store.Keeps scope (Tree.Writes · t))
      (evalTree host call table scope t) := by
  induction t using Tree.plan_induction with
  | step t ih =>
      have hcall' : ∀ tag callee argument,
          Within (Store.Keeps scope (Tree.Writes · t)) (call tag callee argument) :=
        fun tag callee argument => (hcall tag callee argument).mono fun _ _ =>
          Store.Keeps.of_extends
      rw [evalTree_eq_plan]
      refine .bind (.record _) fun _ => ?_
      refine Plan.run_within hcall' t.plan ?_ ?_
      · intro x v hx m r m' h
        cases h
        exact Store.Keeps.define m.store v (Tree.writes_of_target? hx)
      · intro c hc
        exact (ih c hc).mono fun _ _ => Store.Keeps.mono fun x =>
          Tree.writes_of_mem_parts hc

/-- Evaluating a tree that writes no name changes no frame at all. -/
theorem evalTree_extends
    (table : Table) (scope : Scope) (t : Tree)
    (hwrites : ∀ x, ¬ t.Writes x) :
    Within Store.Extends (evalTree host call table scope t) := by
  induction t using Tree.plan_induction with
  | step t ih =>
      rw [evalTree_eq_plan]
      refine .bind (.record _) fun _ => ?_
      refine Plan.run_within hcall t.plan ?_ ?_
      · intro x v hx
        exact absurd (Tree.writes_of_target? hx) (hwrites x)
      · intro c hc
        exact ih c hc fun x hx => hwrites x (Tree.writes_of_mem_parts hc hx)

end Trees

/-- A call changes no frame that was there before it. -/
theorem callValue_extends
    (host : Host) :
    ∀ (n : Nat) (tag : String) (callee argument : Value),
      Within Store.Extends (callValue host n tag callee argument)
  | 0, _, _, _ => fun _ _ _ h => by cases h
  | n + 1, tag, callee, argument => by
      cases callee with
      | function id c =>
          intro m r m' h
          -- the argument goes into a frame of its own, and the body is
          -- evaluated in that frame
          by_cases hlast : c.arity = 1
          · rw [callValue_last host n tag id argument m hlast] at h
            have hbody :=
              evalTree_keeps host (callValue_extends host n) c.table
                m.store.next c.body
            exact Store.Keeps.extends_of_push (hbody.nested h)
          · rw [callValue_stage host n tag id argument m hlast] at h
            have hmade : Within Store.Extends
                (EvalM.makeFunction (c.advance m.store.next)) :=
              .makeFunction _
            exact (Store.Extends.pushChild m.store c.scope c.parameter
              argument).trans (hmade h)
      | builtin id name received =>
          rw [callValue]
          exact .action (callValue_extends host n) _
      | unit | number _ | text _ | foreign _ _ =>
          exact .fail _

/-- **The frame law.**  An evaluation changes the frame of its scope only, and
there only the names that its tree writes outside the bodies of functions; no
name is lost.  A call changes no earlier frame. -/
theorem evaluate_frame_law
    (host : Host) (table : Table) (scope : Scope) (t : Tree) (m : Machine) :
    (∀ (r : Except EvalError Value) (m' : Machine),
      evaluate host table scope t m = some (r, m') →
      Store.Keeps scope (Tree.Writes · t) m.store m'.store) ∧
    ∀ (callee argument : Value) (r : Except EvalError Value) (m' : Machine),
      call host callee argument m = some (r, m') →
      Store.Extends m.store m'.store := by
  constructor
  · intro r m' h
    exact evalTree_keeps host (callValue_extends host callAllowance) table scope t h
  · intro callee argument r m' h
    exact callValue_extends host callAllowance "apply" callee argument h

/-- A function whose body binds a name. -/
def binder : Tree :=
  ⟨"function", "", [.leaf "variable" "f", ⟨"patterns", "", [.leaf "variable" "x"]⟩,
    ⟨"bind", "", [.leaf "variable" "y",
      ⟨"match", "", [.leaf "=" "=", .leaf "variable" "x"]⟩]⟩]⟩

theorem binder_keeps_root :
    ∃ (v : Value) (m m' : Machine) (r : Except EvalError Value),
      evaluate Host.standard Table.empty Scope.root binder Machine.withRoot =
        some (.ok v, m) ∧
      call Host.standard v .unit m = some (r, m') ∧
      m'.store.names Scope.root = ["f"] ∧
      Store.Keeps Scope.root (Tree.Writes · binder) Machine.withRoot.store m.store ∧
      Store.Extends m.store m'.store := by
  have hrun : ((do call Host.standard (← evaluate Host.standard Table.empty
      Scope.root binder) .unit : EvalM Value)
      Machine.withRoot).map (fun o =>
        (o.1.toBool, o.2.store.names Scope.root)) = some (true, ["f"]) := by
    decide +kernel
  obtain ⟨⟨r, m'⟩, hr, hnames⟩ := Option.map_eq_some_iff.1 hrun
  rcases EvalM.bind_eq_some hr with ⟨e, -, rfl⟩ | ⟨v, m, hv, hcall⟩
  · simp [Except.toBool] at hnames
  · refine ⟨v, m, m', r, hv, hcall, by simpa using congrArg Prod.snd hnames, ?_, ?_⟩
    · exact (evaluate_frame_law Host.standard Table.empty Scope.root binder
        Machine.withRoot).1 _ m hv
    · exact (evaluate_frame_law Host.standard Table.empty Scope.root binder m).2
        v .unit r m' hcall

end Curried
