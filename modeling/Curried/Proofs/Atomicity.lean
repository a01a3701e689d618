import Curried.Proofs.FrameLaw
import Curried.Proofs.NormalForm

/-!
# Failure is atomic

A source that fails has done what the declarations before the failing one do,
and nothing else.

**Declarations.**  The expressions of a program bind no name, and calls bind
none in earlier frames.  A declaration that fails has failed in its expression,
before its name would have been bound.

**Sources.**  `FailsAfter` says that a number of declarations succeed and the
next one fails.

**Result.**  `failure_is_atomic`: of a source that fails this is true for one
number of declarations, and the frames are as those declarations leave them.
-/

namespace Curried

open EvalM

/-- A node that is no binding itself writes only what its children write. -/
theorem not_writes_node
    {tag text x : String} {children : List Tree}
    (htag : Kind.ofTag tag ∉ [.bind, .function])
    (h : ∀ c ∈ children, ¬ c.Writes x) :
    ¬ Tree.Writes x ⟨tag, text, children⟩ := by
  intro hx
  cases hx with
  | bind hk => exact htag (List.mem_of_getElem? (i := 0) (by rw [← hk]; rfl))
  | function hk => exact htag (List.mem_of_getElem? (i := 1) (by rw [← hk]; rfl))
  | child hc _ hx => exact h _ (List.mem_of_getElem? hc) hx

theorem not_writes_leaf
    {tag : String}
    (htag : Kind.ofTag tag ∉ [.bind, .function]) (w x : String) :
    ¬ (Tree.leaf tag w).Writes x :=
  not_writes_node htag (by simp)

/-- Expressions bind no name. -/
theorem NormalForm.not_writes
    {e : Tree}
    (h : NormalForm e) (x : String) :
    ¬ e.Writes x := by
  induction h with
  | integer | text | name =>
      exact not_writes_leaf (by decide) _ x
  | parens _ _ _ ih =>
      have hopen : ¬ (Tree.leaf "(" "(").Writes x := not_writes_leaf (by decide) _ x
      have hclose : ¬ (Tree.leaf ")" ")").Writes x :=
        not_writes_leaf (by decide) _ x
      exact not_writes_node (by decide) (by simp [hopen, ih, hclose])
  | apply _ _ _ _ _ ihf iha =>
      exact not_writes_node (by decide) (by simp [ihf, iha])
  | @operator _ _ _ op _ _ _ _ _ _ _ _ iha ihb =>
      have hop : ¬ (Tree.leaf "operator" op).Writes x :=
        not_writes_leaf (by decide) _ x
      exact not_writes_node (by decide) (by simp [iha, hop, ihb])

theorem IsMatch.not_writes
    {t : Tree}
    (h : IsMatch t) (x : String) :
    ¬ t.Writes x := by
  obtain ⟨he⟩ := h
  have hsign : ¬ (Tree.leaf "=" "=").Writes x := not_writes_leaf (by decide) _ x
  exact not_writes_node (by decide) (by simp [hsign, he.not_writes])

section Declarations

variable {host : Host} {table : Table} {scope : Scope}

theorem evaluate_extends
    {t : Tree}
    (h : ∀ x, ¬ t.Writes x) :
    Within Store.Extends (evaluate host table scope t) :=
  evalTree_extends host (callValue_extends host callAllowance) table scope t h

theorem evaluate_keeps
    (t : Tree) :
    Within (Store.Keeps scope (Tree.Writes · t))
      (evaluate host table scope t) :=
  evalTree_keeps host (callValue_extends host callAllowance) table scope t

/-- A declaration that fails changes no frame. -/
theorem IsDeclaration.extends_of_error
    {d : Tree} {m m' : Machine} {e : EvalError}
    (hd : IsDeclaration d)
    (h : evaluate host table scope d m = some (.error e, m')) :
    Store.Extends m.store m'.store := by
  cases hd with
  | function _ hm =>
      rw [evaluate, evalTree_eq_plan, plan_function] at h
      cases h
  | @bind text name body _ hbody =>
      have hplan := plan_bind text name hbody.kind_eq
      rw [evaluate, evalTree_eq_plan, hplan] at h
      -- once the value is there, nothing is left that could fail
      rcases bind_eq_some h with ⟨_, h, -⟩ | ⟨_, mid, h, hrest⟩
      · cases h
      · cases h
        rcases bind_eq_some hrest with ⟨_, hvalue, -⟩ | ⟨v, mid', -, hbound⟩
        · have hextends := evaluate_extends hbody.not_writes hvalue
          exact hextends
        · cases hbound
  | splice he =>
      exact evaluate_extends (fun x =>
        not_writes_node (by decide) (by simp [he.not_writes])) h

end Declarations

/-- The first `i` declarations succeed, and the next one fails. -/
structure FailsAfter
    (host : Host) (table : Table) (scope : Scope) (t : Tree) (m : Machine)
    (i : Nat) (mid : Machine) (e : EvalError) (m' : Machine) : Prop where
  before : ∃ v, evaluate host table scope ⟨t.tag, t.text, t.children.take i⟩ m =
    some (.ok v, mid)
  next : ∃ d, t.children[i]? = some d ∧
    evaluate host table scope d mid = some (.error e, m')

section Sequences

variable {host : Host} {call : Caller} {table : Table} {scope : Scope}

/-- A sequence that fails does so after some of its trees have succeeded. -/
theorem evalEach_eq_error
    {e : EvalError} {m' : Machine} :
    ∀ {ts : List Tree} {last : Value} {m : Machine},
      evalEach host call table scope ts last m = some (.error e, m') →
      ∃ i mid, (∃ v, evalEach host call table scope (ts.take i) last m =
        some (.ok v, mid)) ∧
        ∃ d, ts[i]? = some d ∧
          evalTree host call table scope d mid = some (.error e, m')
  | [], last, m, h => by
      cases h
  | t :: ts, last, m, h => by
      rw [evalEach] at h
      rcases bind_eq_some h with ⟨_, ht, ⟨⟩⟩ | ⟨v, mid, ht, hrest⟩
      · exact ⟨0, m, ⟨last, rfl⟩, t, rfl, ht⟩
      · obtain ⟨i, mid', ⟨w, hw⟩, d, hd, hfail⟩ := evalEach_eq_error hrest
        refine ⟨i + 1, mid', ⟨w, ?_⟩, d, hd, hfail⟩
        rw [List.take_succ_cons, evalEach, bind_of_ok ht]
        exact hw

/-- A sequence that succeeds stops before every tree that fails in its place. -/
theorem le_of_evalEach_take
    {ts : List Tree} {last v w : Value} {m mid mid' m' : Machine} {i j : Nat}
    {d : Tree} {e : EvalError}
    (hj : evalEach host call table scope (ts.take j) last m = some (.ok w, mid'))
    (hi : evalEach host call table scope (ts.take i) last m = some (.ok v, mid))
    (hd : ts[i]? = some d)
    (hfail : evalTree host call table scope d mid = some (.error e, m')) :
    j ≤ i := by
  by_contra hij
  obtain ⟨hlength, rfl⟩ := List.getElem?_eq_some_iff.1 hd
  have hmem : i < (ts.take j).length := by
    rw [List.length_take]
    omega
  have hsplit : ts.take j = ts.take i ++ ts[i] :: (ts.take j).drop (i + 1) := by
    have htake := List.take_append_drop i (ts.take j)
    rw [List.take_take, Nat.min_eq_left (by omega),
      List.drop_eq_getElem_cons hmem, List.getElem_take] at htake
    exact htake.symm
  rw [hsplit, evalEach_append, bind_of_ok hi, evalEach, bind_of_error hfail] at hj
  cases hj

end Sequences

section Programs

variable {host : Host} {table : Table} {scope : Scope} {text : String}
  {ts : List Tree} {m mid m' : Machine}

theorem exists_failsAfter
    {e : EvalError}
    (h : evaluate host table scope ⟨"declarations", text, ts⟩ m =
      some (.error e, m')) :
    ∃ i mid, FailsAfter host table scope ⟨"declarations", text, ts⟩ m i mid e m' := by
  rw [evaluate_declarations] at h
  obtain ⟨i, mid, ⟨v, hv⟩, hnext⟩ := evalEach_eq_error h
  refine ⟨i, mid, ⟨v, ?_⟩, hnext⟩
  rw [evaluate_declarations]
  exact hv

theorem FailsAfter.le
    {i j : Nat} {mid' m'' : Machine} {e e' : EvalError}
    (hi : FailsAfter host table scope ⟨"declarations", text, ts⟩ m i mid e m')
    (hj : FailsAfter host table scope ⟨"declarations", text, ts⟩ m j mid' e' m'') :
    j ≤ i := by
  obtain ⟨⟨v, hv⟩, d, hd, hfail⟩ := hi
  obtain ⟨⟨w, hw⟩, -⟩ := hj
  rw [evaluate_declarations] at hv hw
  exact le_of_evalEach_take hw hv hd hfail

end Programs

/-- If a source fails, there is exactly one number of declarations that succeed
before one that fails.  The frame of the scope is as those declarations leave
it, and every other frame is as it was. -/
theorem failure_is_atomic
    {source : String} {t : Tree} (hparse : parse source = .ok t)
    {host : Host} {table : Table} {scope : Scope} {m m' : Machine} {e : EvalError}
    (hscope : scope.index < m.store.frames.size)
    (hrun : runSource host table scope source m = (.error (.failed e), m')) :
    ∃ i mid,
      FailsAfter host table scope t m i mid e m' ∧
      (∀ j mid' e' m'', FailsAfter host table scope t m j mid' e' m'' → j = i) ∧
      (∃ f, mid.store.frame? scope = some f ∧ m'.store.frame? scope = some f) ∧
      ∀ (other : Scope) (f : Frame), other ≠ scope → m.store.frame? other = some f →
        m'.store.frame? other = some f := by
  obtain ⟨ts, rfl, hprogram⟩ := parse_eq_ok_iff.1 hparse
  have hevaluate := evaluate_of_runSource hparse hrun
  obtain ⟨i, mid, hfails⟩ := exists_failsAfter hevaluate
  refine ⟨i, mid, hfails, ?_, ?_, ?_⟩
  · intro j mid' e' m'' hfails'
    exact Nat.le_antisymm (hfails.le hfails') (hfails'.le hfails)
  · obtain ⟨⟨v, hv⟩, d, hd, hfail⟩ := hfails
    obtain ⟨f, hf⟩ := Store.exists_frame hscope
    obtain ⟨g, hg, -⟩ := (evaluate_keeps _ hv).own hf
    have hextends :=
      (hprogram.isDeclaration d (List.mem_of_getElem? hd)).extends_of_error
        hfail
    exact ⟨g, hg, hextends hg⟩
  · intro other f hne hf
    exact (evaluate_keeps _ hevaluate).others hne hf

/-- The second declaration of three fails, after a call in it has succeeded. -/
def failingSource : String :=
  "f a = a; x = f f z; y = 3"

theorem failingSource_keeps_first :
    ∃ t m' i mid, parse failingSource = .ok t ∧
      FailsAfter Host.standard Table.empty Scope.root t Machine.withRoot i mid
        (.undefined "z") m' ∧
      mid.store.names Scope.root = ["f"] ∧
      ∃ f, mid.store.frame? Scope.root = some f ∧
        m'.store.frame? Scope.root = some f := by
  have hfails : ∀ o,
      runSource Host.standard Table.empty Scope.root failingSource
        Machine.withRoot = o →
      failure? o.1 = some (.undefined "z") ∧
        o.2.store.names Scope.root = ["f"] := by
    rintro o rfl
    decide +kernel
  obtain ⟨⟨outcome, m'⟩, hrun⟩ :
      ∃ o, runSource Host.standard Table.empty Scope.root failingSource
        Machine.withRoot = o := ⟨_, rfl⟩
  obtain ⟨hfailure, hnames⟩ : failure? outcome = some (.undefined "z") ∧
      m'.store.names Scope.root = ["f"] :=
    hfails _ hrun
  rw [eq_failed_of_failure? hfailure] at hrun
  cases hparse : parse failingSource with
  | error e =>
      rw [runSource, hparse] at hrun
      cases hrun
  | ok t =>
      obtain ⟨i, mid, hi, -, ⟨f, hf, hf'⟩, -⟩ :=
        failure_is_atomic hparse (by decide) hrun
      refine ⟨t, m', i, mid, rfl, hi, ?_, f, hf, hf'⟩
      rw [Store.names, hf'] at hnames
      rw [Store.names, hf]
      exact hnames

end Curried
