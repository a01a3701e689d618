import Curried.Proofs.Congruence
import Curried.Proofs.Handles

/-!
# Termination

Evaluations and calls come to an end, with a value or an error, if the functions
of the host call nothing themselves.

**Measure.**  `callValue` is given how deep calls may nest, which hides that
they need no such allowance.  Between the body of a function and the next one
that is entered, only trees and actions of the host are descended; and each body
that is entered takes one from the budget `recursionLimit - depth`, at whose end
no body is entered any more.  So an allowance above the budget is never used up,
and how far above makes no difference.

**Agreement.**  `Settle depth x y` says that, with `depth` bodies under
evaluation, `x` and `y` both end, in the same way, and with as many bodies under
evaluation as before.

**Results.**
* `callValue_settles`: calls under any two allowances above the budget.
* `evaluation_ends`: evaluations and calls in all states, and the search for a
  name in the states of all sessions.
-/

namespace Curried

/-- None of the functions of the host calls anything.  The operators may. -/
def Host.Quiet (host : Host) : Prop :=
  ∀ name received argument, (host.builtin name received argument).CallFree

/-- Both computations end, in the same way. -/
def Settle {α : Type} (depth : Nat) (x y : EvalM α) : Prop :=
  ∀ m : Machine, m.depth = depth → ∃ r m', x m = some (r, m') ∧
    y m = some (r, m') ∧ m'.depth = depth

namespace Settle

variable {α β : Type} {depth : Nat}

/-- A computation that ends and leaves the number of bodies alone. -/
theorem of_run
    {x : EvalM α}
    (hx : ∀ m, ∃ r m', x m = some (r, m') ∧ m'.depth = m.depth) :
    Settle depth x x := by
  intro m hdepth
  obtain ⟨r, m', hrun, hm'⟩ := hx m
  exact ⟨r, m', hrun, hrun, hm'.trans hdepth⟩

theorem bind
    {x y : EvalM α} {f g : α → EvalM β}
    (hxy : Settle depth x y) (hfg : ∀ a, Settle depth (f a) (g a)) :
    Settle depth (x >>= f) (y >>= g) := by
  intro m hdepth
  obtain ⟨r, mid, hx, hy, hmid⟩ := hxy m hdepth
  cases r with
  | error e =>
      exact ⟨.error e, mid, EvalM.bind_of_error hx,
        EvalM.bind_of_error hy, hmid⟩
  | ok a =>
      rw [EvalM.bind_of_ok hx, EvalM.bind_of_ok hy]
      exact hfg a mid hmid

theorem attempt
    {x y : EvalM α}
    (hxy : Settle depth x y) :
    Settle depth x.attempt y.attempt := by
  intro m hdepth
  obtain ⟨r, m', hx, hy, hm'⟩ := hxy m hdepth
  refine ⟨.ok r, m', ?_, ?_, hm'⟩
  · simp [EvalM.attempt, hx]
  · simp [EvalM.attempt, hy]

/-- At a given depth, agreement is a congruence. -/
def congruence (depth : Nat) : Congruence where
  rel := Settle depth
  pure := fun _ => of_run fun m => ⟨_, m, rfl, rfl⟩
  fail := fun _ => of_run fun m => ⟨_, m, rfl, rfl⟩
  bind := bind
  attempt := attempt
  lookup := fun _ _ => of_run fun m => ⟨_, m, rfl, rfl⟩
  record := fun _ _ _ => of_run fun _ => ⟨_, _, rfl, rfl⟩
  write := fun _ => of_run fun _ => ⟨_, _, rfl, rfl⟩
  fresh := of_run fun _ => ⟨_, _, rfl, rfl⟩
  define := fun _ _ _ => of_run fun _ => ⟨_, _, rfl, rfl⟩

/-- A body is entered one level deeper, and only where the budget is not at its
end. -/
theorem nested
    {x y : EvalM Value}
    (hxy : depth < recursionLimit → Settle (depth + 1) x y) :
    Settle depth x.nested y.nested := by
  intro m hdepth
  by_cases hlimit : recursionLimit ≤ m.depth
  · exact ⟨_, m, EvalM.nested_of_full hlimit x, EvalM.nested_of_full hlimit y, hdepth⟩
  · have hopen : m.depth < recursionLimit := Nat.lt_of_not_le hlimit
    obtain ⟨r, m', hx, hy, hm'⟩ := hxy (hdepth ▸ hopen)
      ({ m with depth := m.depth + 1 }.record .enter) (congrArg (· + 1) hdepth)
    refine ⟨r, _, EvalM.nested_of_open hopen hx, EvalM.nested_of_open hopen hy, ?_⟩
    change m'.depth - 1 = depth
    omega

end Settle

/-- Calls under any two allowances above the budget. -/
theorem callValue_settles
    {host : Host} (hquiet : host.Quiet) :
    ∀ {n k depth : Nat}, recursionLimit - depth < n → recursionLimit - depth < k →
      ∀ tag callee argument,
        Settle depth (callValue host n tag callee argument)
          (callValue host k tag callee argument)
  | n + 1, k + 1, depth, hn, hk, tag, callee, argument => by
      cases callee with
      | function id c =>
          rw [callValue, callValue]
          refine .bind (.of_run fun _ => ⟨_, _, rfl, rfl⟩) fun scope => ?_
          split
          · refine .nested fun hopen => ?_
            -- the body has one level less to go
            have hn' : recursionLimit - (depth + 1) < n := by omega
            have hk' : recursionLimit - (depth + 1) < k := by omega
            have hcall := callValue_settles hquiet hn' hk'
            exact (Settle.congruence (depth + 1)).evalTree hcall host c.table
              scope c.body
          · exact (Settle.congruence depth).makeFunction _
      | builtin id name received =>
          exact (Settle.congruence depth).callFree (hquiet name received argument)
      | unit | number _ | text _ | foreign _ _ =>
          exact (Settle.congruence depth).fail _

/-- Under every allowance above the budget the computation ends with `r` and
`m'`, and as many bodies are under evaluation as before. -/
structure EndsIn (run : Nat →
    EvalM Value) (m : Machine) (r : Except EvalError Value) (m' : Machine) :
    Prop where
  run : ∀ n, recursionLimit - m.depth < n → run n m = some (r, m')
  depth : m'.depth = m.depth

/-- The allowance of `evaluate` and `call` is above every budget. -/
theorem budget_lt_callAllowance
    (depth : Nat) :
    recursionLimit - depth < callAllowance :=
  Nat.lt_of_le_of_lt (Nat.sub_le _ _) (by decide)

theorem exists_endsIn
    (run : Nat → EvalM Value) (m : Machine)
    (h : ∀ n k, recursionLimit - m.depth < n → recursionLimit - m.depth < k →
      Settle m.depth (run n) (run k)) :
    ∃ r m', run callAllowance m = some (r, m') ∧ EndsIn run m r m' := by
  have hbudget := budget_lt_callAllowance m.depth
  obtain ⟨r, m', hrun, -, hdepth⟩ := h _ _ hbudget hbudget m rfl
  refine ⟨r, m', hrun, ?_, hdepth⟩
  intro n hn
  obtain ⟨r₁, m₁, hrun₁, hrun₂, -⟩ := h _ n hbudget hn m rfl
  rw [hrun₂, ← hrun₁, hrun]

/-- Evaluations and calls end with a value or an error, in whatever state they
begin.  If the host makes up no handles, the frames of all states have their
parents in order, so that the search for a name ends as well. -/
theorem evaluation_ends
    {host : Host} (hquiet : host.Quiet) :
    (∀ (m : Machine) (table : Table) (scope : Scope) (t : Tree),
      ∃ r m', evaluate host table scope t m = some (r, m') ∧
        EndsIn (fun n => evalTree host (callValue host n) table scope t) m r m') ∧
    (∀ (m : Machine) (callee argument : Value),
      ∃ r m', call host callee argument m = some (r, m') ∧
        EndsIn (fun n => callValue host n "apply" callee argument) m r m') ∧
    (host.Obeys .handles →
      (∀ s, Session.Reachable host s → s.machine.store.Obeys .handles) ∧
      (∀ (m : Machine) (table : Table) (scope : Scope) (t : Tree)
        (r : Except EvalError Value) (m' : Machine),
        m.store.Obeys .handles → scope.index < m.store.frames.size →
        evaluate host table scope t m = some (r, m') →
        m'.store.Obeys .handles) ∧
      ∀ (s : Store) (scope : Scope) (x : String),
        s.Obeys .handles → scope.index < s.frames.size →
        s.Finds x scope (s.lookup scope x)) := by
  refine ⟨?_, ?_, fun hhost => ⟨fun s hs => (hs.sound hhost).store, ?_, ?_⟩⟩
  · intro m table scope t
    refine exists_endsIn (fun n =>
      evalTree host (callValue host n) table scope t) m fun n k hn hk => ?_
    exact (Settle.congruence m.depth).evalTree (callValue_settles hquiet hn hk)
      host table scope t
  · intro m callee argument
    refine exists_endsIn (fun n => callValue host n "apply" callee argument) m
      fun n k hn hk => ?_
    exact callValue_settles hquiet hn hk "apply" callee argument
  · intro m table scope t r m' hm hscope hrun
    exact (evalTree_obeys hhost (callValue_obeys hhost callAllowance) t hscope
      table (Nat.le_refl _) hm hrun).2.1
  · intro s scope x hs hscope
    exact s.finds_lookup hs hscope x

/-- The functions of the standard host call nothing, but for the one that calls
a value twice. -/
theorem Host.Standard.builtin_callFree
    {name : String}
    (hname : name ≠ "twice") (received : List Value) (argument : Value) :
    (builtin name received argument).CallFree := by
  have harithmetic : ∀ f left right, (arithmetic name f left right).CallFree := by
    intro f left right
    unfold arithmetic
    split <;> trivial
  unfold builtin
  split
  · exact harithmetic _ _ _
  · exact harithmetic _ _ _
  · trivial
  · trivial
  · trivial
  · trivial
  · trivial
  · split
    · exact fun _ => trivial
    · trivial
  · trivial
  · trivial
  · exact absurd rfl hname
  · trivial
  · exact fun _ => trivial

/-- The standard host without the function that calls a value twice. -/
def Host.calm : Host where
  builtin := fun name received argument =>
    if name = "twice" then .give .unit
      else Host.Standard.builtin name received argument
  operator := Host.Standard.operator

theorem Host.calm_quiet : Host.calm.Quiet := by
  intro name received argument
  unfold Host.calm
  dsimp only
  split
  · trivial
  · rename_i hname
    exact Host.Standard.builtin_callFree hname received argument

theorem Host.calm_obeys_handles : Host.calm.Obeys .handles where
  builtin := by
    intro n name received argument hreceived hargument
    unfold Host.calm
    dsimp only
    split
    · exact .unit
    · exact Host.standard_obeys_handles.builtin name hreceived hargument
  operator := Host.standard_obeys_handles.operator

/-- A function that applies its argument to itself, applied to itself. -/
def selfApplication : Tree :=
  ⟨"declarations", "f x = x x; f f",
    [⟨"function", "f x = x x",
      [⟨"variable", "f", []⟩, ⟨"patterns", "x", [⟨"variable", "x", []⟩]⟩,
        ⟨"apply", "x x", [⟨"variable", "x", []⟩, ⟨"variable", "x", []⟩]⟩]⟩,
      ⟨"apply", "f f", [⟨"variable", "f", []⟩, ⟨"variable", "f", []⟩]⟩]⟩

/-- A machine with room for six more bodies. -/
def almostFull : Machine :=
  { Machine.withRoot with depth := 4090 }

theorem selfApplication_ends :
    ∃ e m', evaluate Host.calm Table.empty Scope.root selfApplication
      almostFull = some (.error e, m') ∧
      EndsIn (fun n =>
        evalTree Host.calm (callValue Host.calm n) Table.empty Scope.root
          selfApplication)
        almostFull (.error e) m' ∧
      m'.store.Obeys .handles := by
  obtain ⟨hends, -, hhandles⟩ := evaluation_ends Host.calm_quiet
  obtain ⟨r, m', hrun, hends⟩ :=
    hends almostFull Table.empty Scope.root selfApplication
  have hm' : m'.store.Obeys .handles :=
    (hhandles Host.calm_obeys_handles).2.1 almostFull _ Scope.root _ _ _
      Session.initial_sound.store (by decide) hrun
  have hfails : (evaluate Host.calm Table.empty Scope.root selfApplication
      almostFull).map (·.1.toBool) = some false := by
    decide +kernel
  rw [hrun] at hfails
  cases r with
  | ok v => simp [Except.toBool] at hfails
  | error e => exact ⟨e, m', hrun, hends, hm'⟩

end Curried
