import Curried.Proofs.Discipline
import Curried.Proofs.NormalForm

/-!
# Programs have the shapes that evaluation asks for

The evaluator checks the shape of every node that it comes to.  On the trees of
programs none of these checks ever fails.

**Structural errors.**  `EvalError.IsStructural` tells the errors that blame the
shape of a node from all others, by what can be seen of them: their kind, the
tag they blame and the text of their details.

**Shapes.**  `Tree.WellShaped` says of a tree that no check fails wherever its
evaluation comes to, in the bodies of its functions too.  The trees of programs
are of this sort, and so are the bodies of all functions that stem from them;
`Discipline.shapes` carries this through evaluations and calls.

**Result.**  `sources_fit_evaluator`.
-/

namespace Curried

open Lexeme Grammar

/-- The error blames the shape of a node: its children, its text, its tag, or a
node in a place where only a name may stand. -/
def EvalError.IsStructural (e : EvalError) : Prop :=
  e.kind = .shape ∨ e.kind = .unsupportedNode ∨
    ∃ (target : Target) (found : String),
      e.kind = .type ∧ e.tag = target.tag ∧
        e.detail = (EvalError.wrongTarget target found).detail

/-- Errors of type that blame an application or an operator are about values. -/
theorem EvalError.not_isStructural
    {e : EvalError}
    (hkind : e.kind ∉ [.shape, .unsupportedNode])
    (htag : e.kind = .type → e.tag ∈ ["apply", "infix"]) :
    ¬ e.IsStructural := by
  simp only [List.mem_cons, List.not_mem_nil, or_false, not_or] at hkind
  rintro (h | h | ⟨target, found, htype, htarget, -⟩)
  · exact hkind.1 h
  · exact hkind.2 h
  · have := htag htype
    rw [htarget] at this
    cases target <;> revert this <;> decide

theorem EvalError.IsDynamic.not_isStructural
    {e : EvalError}
    (h : e.IsDynamic) :
    ¬ e.IsStructural := by
  refine EvalError.not_isStructural ?_ ?_
  · cases h <;> simp [kind]
  · cases h with
    | operands => simp [tag]
    | notCallable _ htag => exact fun _ => htag
    | unknownOperator | undefined | recursionLimit => simp [kind]

/-- Wherever the evaluation of the tree comes to, the nodes have the shapes that
their tags ask for. -/
inductive Tree.WellShaped : Tree → Prop
  | intro {t : Tree} :
      (∀ e, t.plan ≠ .fail e) →
      (∀ c ∈ t.plan.parts, WellShaped c) →
      (∀ {name parameter : String} {others : List String} {body : Tree},
        t.plan = .define name parameter others body → WellShaped body) →
      WellShaped t

namespace Tree.WellShaped

variable {t : Tree}

theorem plan_ne_fail
    (h : t.WellShaped) (e : EvalError) :
    t.plan ≠ .fail e := by
  obtain ⟨hfail, -, -⟩ := h
  exact hfail e

theorem part
    (h : t.WellShaped) {c : Tree} (hc : c ∈ t.plan.parts) :
    c.WellShaped := by
  obtain ⟨-, hparts, -⟩ := h
  exact hparts c hc

theorem body
    (h : t.WellShaped) {name parameter : String} {others : List String}
    {body : Tree}
    (hplan : t.plan = .define name parameter others body) :
    body.WellShaped := by
  obtain ⟨-, -, hbody⟩ := h
  exact hbody hplan

theorem of_plan
    {p : Plan}
    (hplan : t.plan = p) (hfail : ∀ e, p ≠ .fail e)
    (hparts : ∀ c ∈ p.parts, c.WellShaped)
    (hbody : ∀ {name parameter : String} {others : List String} {body : Tree},
      p = .define name parameter others body → body.WellShaped) :
    t.WellShaped := by
  subst hplan
  exact .intro hfail hparts hbody

end Tree.WellShaped

theorem NormalForm.wellShaped
    {e : Tree}
    (h : NormalForm e) :
    e.WellShaped := by
  induction h with
  | @integer w hw =>
      have hplan : (Tree.leaf "integer" w).plan =
          .give (.number (Numeral.ofDigits w.toList)) := by
        change Plan.ofExcept (integerValue w) = _
        rw [integerValue_of_isInteger hw]
        rfl
      exact .of_plan hplan (by simp) (by simp [Plan.parts]) (by simp)
  | @text w hw =>
      obtain ⟨s, hs⟩ := textValue_of_isText hw
      have hplan : (Tree.leaf "string" w).plan = .give (.text s) := by
        change Plan.ofExcept (textValue w) = _
        rw [hs]
        rfl
      exact .of_plan hplan (by simp) (by simp [Plan.parts]) (by simp)
  | @name w _ =>
      exact .of_plan (p := .look w) rfl (by simp) (by simp [Plan.parts]) (by simp)
  | @parens _ _ e _ _ _ ih =>
      exact .of_plan (p := .pass e) rfl (by simp) (by simp [Plan.parts, ih])
        (by simp)
  | @apply f a _ _ _ _ _ _ ihf iha =>
      exact .of_plan (p := .apply f a) rfl (by simp)
        (by simp [Plan.parts, ihf, iha]) (by simp)
  | @operator a b _ op _ _ _ _ _ _ _ _ iha ihb =>
      exact .of_plan (p := .operate a op b) rfl (by simp)
        (by simp [Plan.parts, iha, ihb]) (by simp)

theorem IsMatch.wellShaped
    {t : Tree}
    (h : IsMatch t) :
    t.WellShaped := by
  obtain ⟨he⟩ := h
  rename_i e
  exact .of_plan (p := .pass e) rfl (by simp)
    (by simp [Plan.parts, he.wellShaped]) (by simp)

theorem IsDeclaration.wellShaped
    {t : Tree}
    (h : IsDeclaration t) :
    t.WellShaped := by
  cases h with
  | @function text text' name parameter others body _ hbody =>
      refine .of_plan (plan_function text text' name parameter others body)
        (by simp) (by simp [Plan.parts]) ?_
      rintro _ _ _ _ ⟨⟩
      exact hbody.wellShaped
  | @bind text name m _ hm =>
      have hplan := plan_bind text name hm.kind_eq
      exact .of_plan hplan (by simp) (by simp [Plan.parts, hm.wellShaped]) (by simp)
  | @splice text e he =>
      exact .of_plan (p := .pass e) rfl (by simp)
        (by simp [Plan.parts, he.wellShaped]) (by simp)

/-- The tree of a program is well-shaped. -/
theorem wellShaped_of_parse
    {source : String} {t : Tree}
    (h : parse source = .ok t) :
    t.WellShaped := by
  obtain ⟨ts, rfl, hprogram⟩ := parse_eq_ok_iff.1 h
  refine .of_plan (p := .sequence ts) rfl (by simp) ?_ (by simp)
  intro d hd
  exact (hprogram.isDeclaration d hd).wellShaped

/-- Well-shaped trees are evaluated, functions have well-shaped bodies, and no
error is structural. -/
def Discipline.shapes : Discipline where
  node := fun _ _ t => t.WellShaped
  function := fun _ c => c.body.WellShaped
  parent := fun _ _ => True
  error := fun e => ¬ e.IsStructural
  node_mono := fun _ h => h
  function_mono := fun _ h => h
  node_parts := fun h hc => h.part hc
  node_fail := fun h hplan => absurd hplan (h.plan_ne_fail _)
  node_define := fun h hplan _ => h.body hplan
  function_parent := fun _ => trivial
  function_receive := fun h _ => h
  function_enter := fun h _ => h
  error_dynamic := fun h => h.not_isStructural

theorem Host.standard_obeys_shapes : Host.standard.Obeys .shapes :=
  Host.standard_obeys fun _ _ _ hkind htag => EvalError.not_isStructural hkind htag

/-- Interprets sources one after the other in one scope, each under a table of
its own: the outcomes, and the machine after the last one. -/
def runAll (host : Host) (scope : Scope) :
    Machine → List (Table × String) →
      List (Except InterpretError Value) × Machine
  | m, [] => ([], m)
  | m, (table, source) :: sources =>
      let (outcome, m') := runSource host table scope source m
      let (outcomes, last) := runAll host scope m' sources
      (outcome :: outcomes, last)

/-- The outcome is neither a structural error nor a function that could run into
one. -/
structure Fits (outcome : Except InterpretError Value) : Prop where
  error : ∀ {e : EvalError}, outcome = .error (.failed e) → ¬ e.IsStructural
  value : ∀ {v : Value}, outcome = .ok v → ∀ n, v.Obeys .shapes n

section Sources

variable {host : Host} (hhost : host.Obeys .shapes)
include hhost

theorem runSource_fits
    {m : Machine} (hm : m.store.Obeys .shapes)
    (table : Table) (scope : Scope) (source : String) :
    Fits (runSource host table scope source m).1 ∧
    (runSource host table scope source m).2.store.Obeys .shapes := by
  have hcovers : Discipline.shapes.Covers m.store.frames.size
      (runSource host table scope source m) :=
    runSource_covers hhost hm (fun _ => wellShaped_of_parse) table
  refine ⟨⟨hcovers.error, ?_⟩, hcovers.store⟩
  intro v hv n
  exact (hcovers.value hv).imp fun _ hc => hc

/-- Any number of sources, by induction on how many there are. -/
theorem runAll_fits
    (scope : Scope) :
    ∀ (sources : List (Table × String)) {m : Machine}, m.store.Obeys .shapes →
      (∀ outcome ∈ (runAll host scope m sources).1, Fits outcome) ∧
        (runAll host scope m sources).2.store.Obeys .shapes
  | [], m, hm => ⟨by simp [runAll], hm⟩
  | (table, source) :: sources, m, hm => by
      obtain ⟨hfirst, hm'⟩ := runSource_fits hhost hm table scope source
      obtain ⟨hothers, hlast⟩ := runAll_fits scope sources hm'
      exact ⟨List.forall_mem_cons.2 ⟨hfirst, hothers⟩, hlast⟩

end Sources

theorem withRoot_obeys {d : Discipline} : Machine.withRoot.store.Obeys d :=
  Store.Obeys.empty.pushRoot

/-- **Sources and evaluator fit together.**  When sources are interpreted one
after the other in one scope, empty at first or holding the prelude, under any
tables, then none of them fails with a structural error.  Nor does a later call
of a function that they gave or defined, with whatever argument they gave or
defined.

Of the host two things are asked: that it brings no structural errors in, and
that it hands out no function whose body is not well shaped.  So what it raises,
and what it gives or calls, must be in order whenever the values that it
received are. -/
theorem sources_fit_evaluator
    {host : Host} (hhost : host.Obeys .shapes)
    {m : Machine}
    (hm : m = Machine.withRoot ∨
      installPrelude Scope.root Machine.withRoot = some (.ok (), m))
    (sources : List (Table × String)) :
    (∀ e, .error (.failed e) ∈ (runAll host Scope.root m sources).1 →
      ¬ e.IsStructural) ∧
    ∀ callee argument : Value,
      (∀ v ∈ [callee, argument],
        .ok v ∈ (runAll host Scope.root m sources).1 ∨
        ∃ x, (runAll host Scope.root m sources).2.store.lookup Scope.root x =
          some v) →
      ∀ e m',
        call host callee argument (runAll host Scope.root m sources).2 =
          some (.error e, m') →
        ¬ e.IsStructural := by
  have hstart : m.store.Obeys .shapes := by
    rcases hm with rfl | hinstall
    · exact withRoot_obeys
    · exact (installPrelude_obeys 0 Scope.root (Nat.zero_le _) withRoot_obeys
        hinstall).2.1
  obtain ⟨houtcomes, hlast⟩ := runAll_fits hhost Scope.root sources hstart
  refine ⟨fun e he => (houtcomes _ he).error rfl, ?_⟩
  intro callee argument hknown e m' hcall
  have hobeys : ∀ v ∈ [callee, argument],
      v.Obeys .shapes
      (runAll host Scope.root m sources).2.store.frames.size := by
    intro v hv
    rcases hknown v hv with hgiven | ⟨x, hx⟩
    · exact (houtcomes _ hgiven).value rfl _
    · exact hlast.lookup hx
  have hrun := callValue_obeys hhost callAllowance
    (List.mem_cons_self : "apply" ∈ ["apply", "infix"])
    (hobeys callee (by simp)) (hobeys argument (by simp))
  exact (hrun (Nat.le_refl _) hlast hcall).2.2

/-- A function, its first argument supplied through an operator of the host, and
the call that runs into a text in the place of a function. -/
def partialSources : List (Table × String) :=
  [(Table.empty, "f x y = x y"),
    (Table.ofList [("|>", "pipe")], "g = \"a\" |> f"), (Table.empty, "g 1")]

theorem partialSources_fit :
    ∃ m, installPrelude Scope.root Machine.withRoot = some (.ok (), m) ∧
      .error (.failed (.notCallable "apply" "string")) ∈
        (runAll Host.standard Scope.root m partialSources).1 ∧
      ¬ (EvalError.notCallable "apply" "string").IsStructural := by
  have hrun : (installPrelude Scope.root Machine.withRoot).map (fun o =>
      (o.1.toBool, (runAll Host.standard Scope.root o.2 partialSources).1.map
        failure?)) =
      some (true, [none, none, some (.notCallable "apply" "string")]) := by
    decide +kernel
  obtain ⟨⟨r, m⟩, hinstall, hpair⟩ := Option.map_eq_some_iff.1 hrun
  cases r with
  | error e => simp [Except.toBool] at hpair
  | ok u =>
      have hmem : some (EvalError.notCallable "apply" "string") ∈
          (runAll Host.standard Scope.root m partialSources).1.map failure? := by
        simp [(Prod.mk.inj hpair).2]
      obtain ⟨outcome, houtcome, hfailure⟩ := List.mem_map.1 hmem
      rw [eq_failed_of_failure? hfailure] at houtcome
      refine ⟨m, hinstall, houtcome, ?_⟩
      exact (sources_fit_evaluator Host.standard_obeys_shapes (Or.inr hinstall)
        partialSources).1 _ houtcome

end Curried
