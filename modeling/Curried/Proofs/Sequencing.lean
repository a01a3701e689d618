import Curried.Proofs.Congruence
import Curried.Proofs.Joining

/-!
# Running programs one after the other

Running two programs with a line break between them is running the first and
then the second.

**Journals.**  The two ways differ in what is written down: the roots of three
trees are visited in one or the other.  But nothing that is evaluated depends on
the journal.  `Machine.unrecorded` forgets it, and `Alike x y` says that `x` and
`y` do the same to machines that differ in their journals only.

**Results.**
* `evalEach_alike`: evaluations do not depend on the journal.
* `runSource_join`: the joined program is accepted, and running it does what the
  two programs do one after the other.
-/

namespace Curried

/-- The machine without its journal. -/
def Machine.unrecorded (m : Machine) : Machine :=
  { m with journal := #[] }

/-- The end of a run, without its journal. -/
def forget {α : Type} (o : Option (Except EvalError α × Machine)) :
    Option (Except EvalError α × Machine) :=
  o.map fun p => (p.1, p.2.unrecorded)

/-- The computations do the same to machines that differ in their journals
only. -/
def Alike {α : Type} (x y : EvalM α) : Prop :=
  ∀ ⦃m m' : Machine⦄, m.unrecorded = m'.unrecorded → forget (x m) = forget (y m')

namespace Alike

variable {α β : Type}

/-- The two runs, taken apart. -/
theorem runs
    {x y : EvalM α} {m m' : Machine}
    (h : Alike x y) (hm : m.unrecorded = m'.unrecorded) :
    x m = none ∧ y m' = none ∨
      ∃ r n n', x m = some (r, n) ∧ y m' = some (r, n') ∧
        n.unrecorded = n'.unrecorded := by
  have hxy := h hm
  rcases hx : x m with _ | ⟨r, n⟩ <;> rcases hy : y m' with _ | ⟨r', n'⟩ <;>
    rw [hx, hy] at hxy
  · exact Or.inl ⟨rfl, rfl⟩
  · cases hxy
  · cases hxy
  · obtain ⟨rfl, hn⟩ := Prod.mk.inj (Option.some.inj hxy)
    exact Or.inr ⟨r, n, n', rfl, rfl, hn⟩

/-- A computation that ends, and does not read the journal. -/
theorem of_run
    {r : Machine → Except EvalError α} {f : Machine → Machine}
    (hr : ∀ m, r m.unrecorded = r m)
    (hf : ∀ m, (f m.unrecorded).unrecorded = (f m).unrecorded) :
    Alike (fun m => some (r m, f m)) (fun m => some (r m, f m)) := by
  intro m m' hm
  have hr' : r m = r m' := by rw [← hr m, hm, hr m']
  have hf' : (f m).unrecorded = (f m').unrecorded := by rw [← hf m, hm, hf m']
  simp only [forget, Option.map_some, hr', hf']

theorem bind
    {x y : EvalM α} {f g : α → EvalM β}
    (hxy : Alike x y) (hfg : ∀ a, Alike (f a) (g a)) :
    Alike (x >>= f) (y >>= g) := by
  intro m m' hm
  rcases hxy.runs hm with ⟨hx, hy⟩ | ⟨r, n, n', hx, hy, hn⟩
  · rw [EvalM.bind_of_none hx, EvalM.bind_of_none hy]
  · cases r with
    | error e =>
        rw [EvalM.bind_of_error hx, EvalM.bind_of_error hy]
        simp only [forget, Option.map_some, hn]
    | ok a =>
        rw [EvalM.bind_of_ok hx, EvalM.bind_of_ok hy]
        exact hfg a hn

theorem attempt
    {x y : EvalM α}
    (hxy : Alike x y) :
    Alike x.attempt y.attempt := by
  intro m m' hm
  rcases hxy.runs hm with ⟨hx, hy⟩ | ⟨r, n, n', hx, hy, hn⟩
  · simp only [EvalM.attempt, hx, hy]
  · simp only [EvalM.attempt, hx, hy, forget, Option.map_some, hn]

/-- What is alike but for the journal is a congruence. -/
def congruence : Congruence where
  rel := Alike
  pure :=
    fun a => of_run (r := fun _ => .ok a) (f := fun m => m) (fun _ =>
      rfl) (fun _ => rfl)
  fail :=
    fun e => of_run (r := fun _ => .error e) (f := fun m => m) (fun _ =>
      rfl) (fun _ => rfl)
  bind := bind
  attempt := attempt
  lookup := fun _ _ => of_run (f := fun m => m) (fun _ => rfl) (fun _ => rfl)
  record := fun _ _ _ => of_run (fun _ => rfl) (fun _ => rfl)
  write := fun _ => of_run (fun _ => rfl) (fun _ => rfl)
  fresh := of_run (fun _ => rfl) (fun _ => rfl)
  define := fun _ _ _ => of_run (fun _ => rfl) (fun _ => rfl)

theorem nested
    {x y : EvalM Value}
    (hxy : Alike x y) :
    Alike x.nested y.nested := by
  refine bind (of_run (f := fun m => m) (fun _ => rfl) (fun _ => rfl))
    fun depth => ?_
  split
  · exact congruence.fail _
  · refine bind (of_run (fun _ => rfl) (fun _ => rfl)) fun _ => ?_
    refine bind hxy.attempt fun result => ?_
    exact bind (of_run (fun _ => rfl) (fun _ => rfl)) fun _ =>
      congruence.ofExcept result

end Alike

theorem callValue_alike
    (host : Host) (n : Nat) (tag : String) (callee argument : Value) :
    Alike (callValue host n tag callee argument)
      (callValue host n tag callee argument) := by
  refine Alike.congruence.callValue ?_ Alike.nested ?_ host n tag callee argument
  · intro scope name value
    exact Alike.of_run (fun _ => rfl) (fun _ => rfl)
  · intro m m' _
    rfl

theorem evalEach_alike
    (host : Host) (n : Nat) (table : Table) (scope : Scope) (ts : List Tree)
    (last : Value) :
    Alike (evalEach host (callValue host n) table scope ts last)
      (evalEach host (callValue host n) table scope ts last) :=
  Alike.congruence.evalEach ts last fun t _ =>
    Alike.congruence.evalTree (callValue_alike host n) host table scope t

/-- What an interpretation makes of the end of an evaluation that began on
`m`. -/
def outcomeOf (m : Machine) :
    Option (Except EvalError Value × Machine) →
      Except InterpretError Value × Machine
  | none => (.error .unfinished, m)
  | some (.error e, m') => (.error (.failed e), m')
  | some (.ok v, m') => (.ok v, m')

/-- The outcomes are the same, and so are the machines, their journals apart, if
the evaluation has come to an end. -/
structure Matches (a b : Except InterpretError Value × Machine) : Prop where
  outcome : a.1 = b.1
  machine : a.1 ≠ .error .unfinished → a.2.unrecorded = b.2.unrecorded

theorem outcomeOf_matches
    {o o' : Option (Except EvalError Value × Machine)}
    (h : forget o = forget o') (m m' : Machine) :
    Matches (outcomeOf m o) (outcomeOf m' o') := by
  rcases o with _ | ⟨r, n⟩ <;> rcases o' with _ | ⟨r', n'⟩
  · exact ⟨rfl, fun h => absurd rfl h⟩
  · cases h
  · cases h
  · obtain ⟨rfl, hn⟩ := Prod.mk.inj (Option.some.inj h)
    cases r with
    | error e => exact ⟨rfl, fun _ => hn⟩
    | ok v => exact ⟨rfl, fun _ => hn⟩

section Sequences

variable {x : EvalM Value} (hx : Alike x x) {m m' m₁ : Machine}
  (hm : m.unrecorded = m'.unrecorded)
include hx hm

/-- If the first of two computations gives no value, the second one is not
run. -/
theorem Alike.outcomeOf_error
    {k : Machine} {e : InterpretError}
    (h : outcomeOf k (x m') = (.error e, m₁)) (f : Value → EvalM Value) :
    Matches (outcomeOf k ((x >>= f) m)) (.error e, m₁) := by
  rcases hx.runs hm with ⟨hrun, hrun'⟩ | ⟨r, n, n', hrun, hrun', hn⟩
  · rw [hrun'] at h
    rw [EvalM.bind_of_none hrun, ← h]
    exact outcomeOf_matches rfl k k
  · rw [hrun'] at h
    cases r with
    | ok v => cases h
    | error e' =>
        rw [EvalM.bind_of_error hrun, ← h]
        refine outcomeOf_matches ?_ k k
        simp only [forget, Option.map_some, hn]

theorem Alike.outcomeOf_ok
    {k : Machine} {v : Value}
    (h : outcomeOf k (x m') = (.ok v, m₁)) :
    ∃ n, x m = some (.ok v, n) ∧ n.unrecorded = m₁.unrecorded := by
  rcases hx.runs hm with ⟨-, hrun'⟩ | ⟨r, n, n', hrun, hrun', hn⟩ <;>
    rw [hrun'] at h
  · cases h
  · cases r with
    | error e => cases h
    | ok w =>
        cases h
        exact ⟨n, hrun, hn⟩

end Sequences

/-- Where there is something to evaluate, the value before it is forgotten. -/
theorem evalEach_cons_last
    (host : Host) (call : Caller) (table : Table) (scope : Scope) {ts : List Tree}
    (hts : ts ≠ []) (last last' : Value) :
    evalEach host call table scope ts last =
      evalEach host call table scope ts last' := by
  cases ts with
  | nil => exact absurd rfl hts
  | cons t ts => rw [evalEach, evalEach]

theorem runSource_eq
    {source : String} {ts : List Tree}
    (h : parse source = .ok ⟨"declarations", source, ts⟩)
    (host : Host) (table : Table) (scope : Scope) (m : Machine) :
    runSource host table scope source m =
      outcomeOf m (evalEach host (callValue host callAllowance) table scope ts .unit
        (m.record (.visit "declarations" source))) := by
  rw [runSource, h, ← evaluate_declarations]
  unfold runTree outcomeOf
  rfl

/-- Two programs with a line break between them are accepted as one program.
Running it does what running the first and then the second does: if the first
fails, so does all, and the second is not run; otherwise the outcome is that of
the second, or the value of the first if the second has no declarations. -/
theorem runSource_join
    {s₁ s₂ : String} {t₁ t₂ : Tree}
    (h₁ : parse s₁ = .ok t₁) (h₂ : parse s₂ = .ok t₂) :
    parse (s₁ ++ "\n" ++ s₂) =
      .ok ⟨"declarations", s₁ ++ "\n" ++ s₂, t₁.children ++ t₂.children⟩ ∧
    ∀ (host : Host) (table : Table) (scope : Scope) (m : Machine),
      (∀ e m₁,
        runSource host table scope s₁ m = (.error e, m₁) →
        Matches (runSource host table scope (s₁ ++ "\n" ++ s₂) m) (.error e, m₁)) ∧
      ∀ v₁ m₁ r₂ m₂,
        runSource host table scope s₁ m = (.ok v₁, m₁) →
        runSource host table scope s₂ m₁ = (r₂, m₂) →
        Matches (runSource host table scope (s₁ ++ "\n" ++ s₂) m)
          (if t₂.children = [] then .ok v₁ else r₂, m₂) := by
  obtain ⟨ts₁, rfl, hprogram₁⟩ := parse_eq_ok_iff.1 h₁
  obtain ⟨ts₂, rfl, hprogram₂⟩ := parse_eq_ok_iff.1 h₂
  have hjoined : parse (s₁ ++ "\n" ++ s₂) =
      .ok ⟨"declarations", s₁ ++ "\n" ++ s₂, ts₁ ++ ts₂⟩ := by
    refine parse_eq_ok_iff.2 ⟨ts₁ ++ ts₂, rfl, ?_⟩
    have hprogram := hprogram₁.join hprogram₂
    simpa using hprogram
  refine ⟨hjoined, fun host table scope m => ?_⟩
  rw [runSource_eq hjoined, evalEach_append, runSource_eq h₁]
  have hfirst := evalEach_alike host callAllowance table scope ts₁ .unit
  have hm : (m.record (.visit "declarations" (s₁ ++ "\n" ++ s₂))).unrecorded =
      (m.record (.visit "declarations" s₁)).unrecorded := rfl
  constructor
  · intro e m₁ hrun
    exact hfirst.outcomeOf_error hm hrun _
  · intro v₁ m₁ r₂ m₂ hrun₁ hrun₂
    obtain ⟨n, hn, hm₁⟩ := hfirst.outcomeOf_ok hm hrun₁
    rw [EvalM.bind_of_ok hn]
    rw [runSource_eq h₂] at hrun₂
    by_cases hnone : ts₂ = []
    · subst hnone
      rw [evalEach] at hrun₂ ⊢
      cases hrun₂
      rw [if_pos rfl]
      exact ⟨rfl, fun _ => hm₁⟩
    · have hrecord : n.unrecorded =
          (m₁.record (.visit "declarations" s₂)).unrecorded := hm₁
      rw [if_neg hnone, ← hrun₂,
        evalEach_cons_last host _ table scope hnone v₁ .unit]
      exact outcomeOf_matches
        (evalEach_alike host callAllowance table scope ts₂ .unit hrecord) m m₁

/-- Runs a program in the root scope, with the standard host and without
operators. -/
def runInRoot (source : String) (m : Machine) :
    Except InterpretError Value × Machine :=
  runSource Host.standard Table.empty Scope.root source m

/-- A program that is accepted, with the number of its declarations. -/
theorem exists_parse
    (source : String) (n : Nat)
    (h : (parse source).toOption.map (·.children.length) = some n) :
    ∃ t, parse source = .ok t ∧ t.children.length = n := by
  cases hparse : parse source with
  | error e =>
      rw [hparse] at h
      cases h
  | ok t =>
      rw [hparse] at h
      exact ⟨t, rfl, Option.some.inj h⟩

/-- A run that gives a value, with what is shown of it and the names that are
bound after it. -/
theorem exists_value
    (o : Except InterpretError Value × Machine) (shown : String)
    (names : List String)
    (h : o.1.toOption.map Value.inspect = some shown ∧
      o.2.store.names Scope.root = names) :
    ∃ v m, o = (.ok v, m) ∧ v.inspect = shown ∧
      m.store.names Scope.root = names := by
  obtain ⟨r, m⟩ := o
  cases r with
  | error e => cases h.1
  | ok v => exact ⟨v, m, rfl, Option.some.inj h.1, h.2⟩

/-- A run that fails, with the error and the names that are bound after it. -/
theorem exists_failure
    (o : Except InterpretError Value × Machine) (e : EvalError)
    (names : List String)
    (h : failure? o.1 = some e ∧ o.2.store.names Scope.root = names) :
    ∃ m, o = (.error (.failed e), m) ∧ m.store.names Scope.root = names := by
  obtain ⟨r, m⟩ := o
  exact ⟨m, Prod.ext (eq_failed_of_failure? h.1) rfl, h.2⟩

/-- The first program ends in a comment, which the line break closes.  The
second one uses what the first one defines; or it is not run, since the first
one fails, and binds nothing; or it is empty, and the value of the first one is
what all gives. -/
theorem join_behind_comment :
    (∃ t₁ t₂ v m₁ w m₂,
      parse "f x = x; f 3 -- three" = .ok t₁ ∧ parse "; y = f 7; y" = .ok t₂ ∧
      parse ("f x = x; f 3 -- three" ++ "\n" ++ "; y = f 7; y") =
        .ok ⟨"declarations", "f x = x; f 3 -- three" ++ "\n" ++ "; y = f 7; y",
          t₁.children ++ t₂.children⟩ ∧
      runInRoot "f x = x; f 3 -- three" Machine.withRoot = (.ok v, m₁) ∧
      runInRoot "; y = f 7; y" m₁ = (.ok w, m₂) ∧
      v.inspect = "Number(3.0)" ∧ w.inspect = "Number(7.0)" ∧
      m₂.store.names Scope.root = ["f", "y"] ∧
      Matches (runInRoot ("f x = x; f 3 -- three" ++ "\n" ++ "; y = f 7; y")
        Machine.withRoot) (.ok w, m₂)) ∧
    (∃ m₁,
      runInRoot "x = 1; y -- unknown" Machine.withRoot =
        (.error (.failed (.undefined "y")), m₁) ∧
      m₁.store.names Scope.root = ["x"] ∧
      Matches (runInRoot ("x = 1; y -- unknown" ++ "\n" ++ "z = 2")
        Machine.withRoot) (.error (.failed (.undefined "y")), m₁)) ∧
    ∃ v m₁ w m₂,
      runInRoot "x = 1; x -- one" Machine.withRoot = (.ok v, m₁) ∧
      runInRoot " -- nothing" m₁ = (.ok w, m₂) ∧
      v.inspect = "Number(1.0)" ∧ w.inspect = "Unit" ∧
      m₂.store.names Scope.root = ["x"] ∧
      Matches (runInRoot ("x = 1; x -- one" ++ "\n" ++ " -- nothing")
        Machine.withRoot) (.ok v, m₂) := by
  refine ⟨?_, ?_, ?_⟩
  · obtain ⟨t₁, h₁, -⟩ := exists_parse "f x = x; f 3 -- three" 2 (by decide +kernel)
    obtain ⟨t₂, h₂, hlength⟩ := exists_parse "; y = f 7; y" 2 (by decide +kernel)
    obtain ⟨v, m₁, hfirst, hv, -⟩ := exists_value
      (runInRoot "f x = x; f 3 -- three" Machine.withRoot) "Number(3.0)" ["f"]
        (by decide +kernel)
    obtain ⟨w, m₂, hsecond, hw, hnames⟩ := exists_value
      (runInRoot "; y = f 7; y"
        (runInRoot "f x = x; f 3 -- three" Machine.withRoot).2)
      "Number(7.0)" ["f", "y"] (by decide +kernel)
    rw [hfirst] at hsecond
    obtain ⟨hparse, hruns⟩ := runSource_join h₁ h₂
    have hjoined := (hruns Host.standard .empty Scope.root Machine.withRoot).2
      v m₁ _ m₂ hfirst hsecond
    have hsome : t₂.children ≠ [] := List.ne_nil_of_length_eq_add_one hlength
    rw [if_neg hsome] at hjoined
    exact ⟨t₁, t₂, v, m₁, w, m₂, h₁, h₂, hparse, hfirst, hsecond, hv, hw,
      hnames, hjoined⟩
  · obtain ⟨t₁, h₁, -⟩ := exists_parse "x = 1; y -- unknown" 2 (by decide +kernel)
    obtain ⟨t₂, h₂, -⟩ := exists_parse "z = 2" 1 (by decide +kernel)
    obtain ⟨m₁, hfirst, hnames⟩ := exists_failure
      (runInRoot "x = 1; y -- unknown" Machine.withRoot) (.undefined "y") ["x"]
      (by decide +kernel)
    have hjoined := ((runSource_join h₁ h₂).2 Host.standard .empty Scope.root
      Machine.withRoot).1 _ m₁ hfirst
    exact ⟨m₁, hfirst, hnames, hjoined⟩
  · obtain ⟨t₁, h₁, -⟩ := exists_parse "x = 1; x -- one" 2 (by decide +kernel)
    obtain ⟨t₂, h₂, hlength⟩ := exists_parse " -- nothing" 0 (by decide +kernel)
    obtain ⟨v, m₁, hfirst, hv, -⟩ := exists_value
      (runInRoot "x = 1; x -- one" Machine.withRoot) "Number(1.0)" ["x"]
        (by decide +kernel)
    obtain ⟨w, m₂, hsecond, hw, hnames⟩ := exists_value
      (runInRoot " -- nothing" (runInRoot "x = 1; x -- one" Machine.withRoot).2)
      "Unit" ["x"] (by decide +kernel)
    rw [hfirst] at hsecond
    have hjoined := ((runSource_join h₁ h₂).2 Host.standard .empty Scope.root
      Machine.withRoot).2 v m₁ _ m₂ hfirst hsecond
    rw [if_pos (List.length_eq_zero_iff.1 hlength)] at hjoined
    exact ⟨v, m₁, w, m₂, hfirst, hsecond, hv, hw, hnames, hjoined⟩

end Curried
