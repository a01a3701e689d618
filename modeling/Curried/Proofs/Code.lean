import Curried.Proofs.Sequencing

/-!
# The code of a tree

Not all of a tree has a say in what evaluating it does.

**Cores.**  A node whose plan is to pass on the node inside it adds nothing but
a visit to the journal.  `Tree.core` is the plan of the first node on the way
down that does more.

**Code.**  `Tree.code` is what is left of a tree if that is done everywhere, in
the bodies of functions as well: the nodes that pass on are gone, and of the
others only that is kept which is read.

**Results.**
* `evalTree_core`: evaluating a tree is carrying out its core, the journal
  apart.
* `Tree.core_induction`, `Tree.trees_induction`: what holds of a tree whenever
  it holds of the parts of its core, or of all nodes that its plan has to do
  with, holds of every tree.
* `Tree.code_eq_core`: the code of a tree is the code of its core.
* `Tree.core_follows`: so the core is of the kind that the code is of.
-/

namespace Curried

/-- What evaluating a tree depends on. -/
inductive Code where
  | fail (error : EvalError)
  | give (value : Value)
  | look (name : String)
  | sequence (parts : List Code)
  | define (name parameter : String) (others : List String) (body : Code)
  | bind (name : String) (value : Code)
  | operate (left : Code) (symbol : String) (right : Code)
  | apply (function argument : Code)

/-- The code that is carried out along with a code.  The body of a function is
not among it. -/
def Code.parts : Code → List Code
  | .sequence parts => parts
  | .bind _ value => [value]
  | .operate left _ right => [left, right]
  | .apply function argument => [function, argument]
  | _ => []

/-- The nodes that a plan has to do with: those that it evaluates, or the body
of a function. -/
def Plan.trees : Plan → List Tree
  | .define _ _ _ body => [body]
  | p => p.parts

namespace Tree

theorem sizeOf_lt_of_mem_children
    {t c : Tree}
    (h : c ∈ t.children) :
    sizeOf c < sizeOf t := by
  have hlt := List.sizeOf_lt_of_mem h
  obtain ⟨tag, text, children⟩ := t
  simp only [Tree.mk.sizeOf_spec] at hlt ⊢
  omega

theorem trees_subset_children
    (t : Tree) :
    t.plan.trees ⊆ t.children := by
  cases hplan : t.plan with
  | define name parameter others body =>
      have hplanned := t.planned
      rw [hplan] at hplanned
      cases hplanned with
      | function _ hchildren => simp [Plan.trees, hchildren]
  | _ =>
      have hparts := t.parts_subset_children
      rw [hplan] at hparts
      exact hparts

theorem sizeOf_lt_of_plan
    {t c : Tree} {p : Plan}
    (h : t.plan = p) (hc : c ∈ p.trees) :
    sizeOf c < sizeOf t :=
  sizeOf_lt_of_mem_children (t.trees_subset_children (h ▸ hc))

/-- What holds of a node whenever it holds of all that its plan has to do with,
the body of a function included, holds of every node. -/
theorem trees_induction
    {motive : Tree → Prop}
    (step : ∀ t : Tree, (∀ c ∈ t.plan.trees, motive c) → motive t)
    (t : Tree) :
    motive t :=
  step t fun c hc =>
    have : sizeOf c < sizeOf t := sizeOf_lt_of_plan rfl hc
    trees_induction step c
termination_by sizeOf t

/-- The plan of the first node on the way down that does more than pass on. -/
def core (t : Tree) : Plan :=
  match _h : t.plan with
  | .pass inner => inner.core
  | p => p
termination_by sizeOf t
decreasing_by exact sizeOf_lt_of_plan _h (by simp [Plan.trees, Plan.parts])

/-- The code of a tree. -/
def code (t : Tree) : Code :=
  match _h : t.plan with
  | .fail e => .fail e
  | .give v => .give v
  | .look name => .look name
  | .sequence parts => .sequence (parts.attach.map fun ⟨c, _⟩ => c.code)
  | .define name parameter others body => .define name parameter others body.code
  | .bind name value => .bind name value.code
  | .operate left symbol right => .operate left.code symbol right.code
  | .apply function argument => .apply function.code argument.code
  | .pass inner => inner.code
termination_by sizeOf t
decreasing_by
  all_goals exact sizeOf_lt_of_plan _h (by simp_all [Plan.trees, Plan.parts])

end Tree

/-- The code of a plan. -/
def Plan.code : Plan → Code
  | .fail e => .fail e
  | .give v => .give v
  | .look name => .look name
  | .sequence parts => .sequence (parts.map Tree.code)
  | .define name parameter others body => .define name parameter others body.code
  | .bind name value => .bind name value.code
  | .operate left symbol right => .operate left.code symbol right.code
  | .apply function argument => .apply function.code argument.code
  | .pass inner => inner.code

/-- The plan is of the kind of the code, and has nodes where the code has the
codes of nodes. -/
inductive Plan.Follows : Code → Plan → Prop
  | fail (e : EvalError) :
      Follows (.fail e) (.fail e)
  | give (v : Value) :
      Follows (.give v) (.give v)
  | look (name : String) :
      Follows (.look name) (.look name)
  | sequence {parts : List Tree} {cs : List Code} :
      parts.map Tree.code = cs →
      Follows (.sequence cs) (.sequence parts)
  | define (name parameter : String) (others : List String) {body : Tree}
      {c : Code} :
      body.code = c →
      Follows (.define name parameter others c) (.define name parameter others body)
  | bind (name : String) {value : Tree} {c : Code} :
      value.code = c →
      Follows (.bind name c) (.bind name value)
  | operate (symbol : String) {left right : Tree} {l r : Code} :
      left.code = l → right.code = r →
      Follows (.operate l symbol r) (.operate left symbol right)
  | apply {function argument : Tree} {f a : Code} :
      function.code = f → argument.code = a →
      Follows (.apply f a) (.apply function argument)

namespace Tree

theorem core_of_pass
    {t inner : Tree}
    (h : t.plan = .pass inner) :
    t.core = inner.core := by
  rw [core]
  split <;> simp_all

theorem core_of_ne_pass
    {t : Tree}
    (h : ∀ inner, t.plan ≠ .pass inner) :
    t.core = t.plan := by
  rw [core]
  split <;> simp_all

/-- A node passes on the one inside it, or its plan is its core. -/
theorem pass_or_core
    (t : Tree) :
    (∃ inner, t.plan = .pass inner) ∨ (∀ inner, t.plan ≠ .pass inner) ∧
    t.core = t.plan := by
  by_cases h : ∃ inner, t.plan = .pass inner
  · exact Or.inl h
  · have hne := not_exists.1 h
    exact Or.inr ⟨hne, core_of_ne_pass hne⟩

/-- What holds of a tree whenever it holds of the parts of its core holds of
every tree. -/
theorem core_induction
    {motive : Tree → Prop}
    (step : ∀ t : Tree, (∀ c ∈ t.core.parts, motive c) → motive t)
    (t : Tree) :
    motive t := by
  have hboth : motive t ∧ ∀ c ∈ t.core.parts, motive c := by
    induction t using plan_induction with
    | step t ih =>
        have hparts : ∀ c ∈ t.core.parts, motive c := by
          rcases t.pass_or_core with ⟨inner, hinner⟩ | ⟨-, hcore⟩
          · rw [core_of_pass hinner]
            exact (ih inner (by simp [hinner, Plan.parts])).2
          · rw [hcore]
            exact fun c hc => (ih c hc).1
        exact ⟨step t hparts, hparts⟩
  exact hboth.1

theorem core_ne_pass (t inner : Tree) : t.core ≠ .pass inner := by
  induction t using plan_induction with
  | step t ih =>
      rcases t.pass_or_core with ⟨inner', hinner⟩ | ⟨hne, hcore⟩
      · rw [core_of_pass hinner]
        exact ih inner' (by simp [hinner, Plan.parts])
      · rw [hcore]
        exact hne inner

/-- A value that a tree stands for by itself is a number or a text. -/
theorem literal_of_core
    {t : Tree} {v : Value}
    (h : t.core = .give v) :
    (∃ x, v = .number x) ∨ ∃ s, v = .text s := by
  induction t using plan_induction with
  | step t ih =>
      rcases t.pass_or_core with ⟨inner, hinner⟩ | ⟨-, hcore⟩
      · rw [core_of_pass hinner] at h
        exact ih inner (by simp [hinner, Plan.parts]) h
      · rw [hcore] at h
        have hplanned := t.planned
        rw [h] at hplanned
        cases hplanned with
        | integer _ _ hv =>
            unfold integerValue at hv
            dsimp only at hv
            split at hv
            · cases hv
            · exact Or.inl ⟨_, (Except.ok.inj hv).symm⟩
        | text _ _ hv =>
            unfold textValue at hv
            split at hv
            · exact Or.inr ⟨_, (Except.ok.inj hv).symm⟩
            · cases hv

theorem code_eq_plan (t : Tree) : t.code = t.plan.code := by
  rw [code]
  split <;> rename_i h <;> simp [h, Plan.code]

theorem code_eq_core (t : Tree) : t.code = t.core.code := by
  induction t using plan_induction with
  | step t ih =>
      rcases t.pass_or_core with ⟨inner, hinner⟩ | ⟨-, hcore⟩
      · rw [code_eq_plan, hinner, core_of_pass hinner]
        exact ih inner (by simp [hinner, Plan.parts])
      · rw [code_eq_plan, hcore]

theorem core_follows (t : Tree) : Plan.Follows t.code t.core := by
  rw [code_eq_core]
  have hpass := t.core_ne_pass
  generalize t.core = p at hpass
  cases p with
  | fail e => exact .fail e
  | give v => exact .give v
  | look name => exact .look name
  | sequence parts => exact .sequence rfl
  | define name parameter others body => exact .define name parameter others rfl
  | bind name value => exact .bind name rfl
  | operate left symbol right => exact .operate symbol rfl rfl
  | apply function argument => exact .apply rfl rfl
  | pass inner => exact absurd rfl (hpass inner)

end Tree

/-- Evaluating a tree is carrying out its core after some visits have been
written down. -/
theorem evalTree_core
    (host : Host) (call : Caller) (table : Table) (scope : Scope) (t : Tree)
    (m : Machine) :
    ∃ n : Machine, n.unrecorded = m.unrecorded ∧
      evalTree host call table scope t m = t.core.run host call table scope n := by
  induction t using Tree.plan_induction generalizing m with
  | step t ih =>
      have heval : evalTree host call table scope t m =
          t.plan.run host call table scope (m.record (.visit t.tag t.text)) := by
        rw [evalTree_eq_plan]
        rfl
      rcases t.pass_or_core with ⟨inner, hinner⟩ | ⟨-, hcore⟩
      · obtain ⟨n, hn, hrun⟩ :=
          ih inner (by simp [hinner, Plan.parts])
            (m.record (.visit t.tag t.text))
        rw [hinner] at heval
        refine ⟨n, hn, ?_⟩
        rw [heval, Tree.core_of_pass hinner]
        exact hrun
      · exact ⟨m.record (.visit t.tag t.text), rfl, by rw [heval, hcore]⟩

end Curried
