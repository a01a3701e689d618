import Curried.Proofs.Congruence
import Curried.Proofs.Termination

/-!
# Depth to spare

How many bodies are under evaluation when an evaluation starts decides only
whether it is refused.

**Room.**  `Machine.Roomier m m'` says that `m'` has the heap of `m` and as many
bodies under evaluation or fewer.  Two runs end `WithRoom` if the first one is
refused, or if they end in the same way, on machines of which the second is
again the roomier one.

**Hosts.**  A host function could catch the refusal of a call that it makes and
go on.  `Host.HandsOn` says that the functions and operators of the host fail
with the error of the first call that fails.

**Result.**  `spare_depth_unobservable`: evaluations and calls that are not
refused at some depth end in the same way at every smaller depth, and those that
are refused are refused at every larger one.
-/

namespace Curried

/-- The action fails with the given error, whatever it logs and makes before. -/
def Action.FailsWith (e : EvalError) : Action → Prop
  | .give _ => False
  | .fail e' => e' = e
  | .call _ _ _ => False
  | .write _ next => FailsWith e next
  | .make blueprint next => ∀ id, FailsWith e (next (blueprint.value id))

/-- The action fails with the error of the first of its calls that fails. -/
def Action.HandsOn : Action → Prop
  | .give _ => True
  | .fail _ => True
  | .call _ _ next =>
      (∀ e, (next (.error e)).FailsWith e) ∧ ∀ v, HandsOn (next (.ok v))
  | .write _ next => HandsOn next
  | .make blueprint next => ∀ id, HandsOn (next (blueprint.value id))

/-- The functions and operators of the host hand errors of their calls on. -/
structure Host.HandsOn (host : Host) : Prop where
  builtin : ∀ name received argument, (host.builtin name received argument).HandsOn
  operator : ∀ name symbol left right,
    (host.operator name symbol left right).HandsOn

namespace Action

theorem FailsWith.handsOn
    {a : Action} {e : EvalError}
    (h : a.FailsWith e) :
    a.HandsOn := by
  induction a with
  | give | fail => trivial
  | call => exact h.elim
  | write line next ih => exact ih h
  | make blueprint next ih => exact fun id => ih _ (h id)

theorem FailsWith.run
    {a : Action} {e : EvalError}
    (h : a.FailsWith e) (call : Caller) (m : Machine) :
    ∃ n, a.run call m = some (.error e, n) := by
  induction a generalizing m with
  | give | call =>
      exact h.elim
  | fail e' =>
      cases h
      exact ⟨m, rfl⟩
  | write line next ih =>
      exact ih h _
  | make blueprint next ih =>
      exact ih _ (h m.made) _

theorem handsOn_andThenCall
    (callee argument : Value) {next : Value → Action}
    (h : ∀ v, (next v).HandsOn) :
    (andThenCall callee argument next).HandsOn :=
  ⟨fun _ => rfl, h⟩

end Action

/-- The standard host functions and operators hand errors on. -/
theorem Host.standard_handsOn : Host.standard.HandsOn where
  builtin := by
    intro name received argument
    change (Standard.builtin name received argument).HandsOn
    unfold Standard.builtin
    split
    case h_11 =>
        exact Action.handsOn_andThenCall _ _ fun v =>
          Action.handsOn_andThenCall _ _ fun _ => trivial
    case h_1 | h_2 =>
      unfold Standard.arithmetic
      split <;> trivial
    case h_8 =>
      split
      · exact fun _ => trivial
      · trivial
    all_goals first
      | trivial
      | exact fun _ => trivial
  operator := by
    intro name symbol left right
    have hpatterns : ∀ f, (Standard.combinePatterns f left right).HandsOn := by
      intro f
      unfold Standard.combinePatterns
      split
      · exact fun _ => trivial
      · trivial
      · trivial
    change (Standard.operator name symbol left right).HandsOn
    unfold Standard.operator
    split
    case h_5 | h_6 => exact Action.handsOn_andThenCall _ _ fun _ => trivial
    case h_9 | h_10 => exact hpatterns _
    all_goals trivial

/-- The second machine has the heap of the first one, and as many bodies under
evaluation or fewer. -/
structure Machine.Roomier (m m' : Machine) : Prop where
  store : m'.store = m.store
  made : m'.made = m.made
  log : m'.log = m.log
  depth : m'.depth ≤ m.depth

/-- How two runs end of which the second one has more room: the first one is
refused, or they end in the same way. -/
inductive WithRoom {α : Type} :
    Option (Except EvalError α × Machine) →
    Option (Except EvalError α × Machine) → Prop
  | refused {e : EvalError} {n : Machine}
      {o : Option (Except EvalError α × Machine)} :
      e.kind = .recursion → WithRoom (some (.error e, n)) o
  | never :
      WithRoom none none
  | ended {r : Except EvalError α} {n n' : Machine} :
      n.Roomier n' → WithRoom (some (r, n)) (some (r, n'))

/-- On a machine with more room the second computation does what the first one
does, unless that is refused. -/
def Spares {α : Type} (x y : EvalM α) : Prop :=
  ∀ ⦃m m' : Machine⦄, m.Roomier m' → WithRoom (x m) (y m')

namespace Spares

variable {α β : Type}

/-- A computation that ends and does not read the depth. -/
theorem of_run
    {r : Machine → Except EvalError α} {f : Machine → Machine}
    (hr : ∀ ⦃m m' : Machine⦄, m.Roomier m' → r m = r m')
    (hf : ∀ ⦃m m' : Machine⦄, m.Roomier m' → (f m).Roomier (f m')) :
    Spares (fun m => some (r m, f m)) (fun m => some (r m, f m)) := by
  intro m m' hm
  simp only [hr hm]
  exact .ended (hf hm)

theorem bind
    {x y : EvalM α} {f g : α → EvalM β}
    (hxy : Spares x y) (hfg : ∀ a, Spares (f a) (g a)) :
    Spares (x >>= f) (y >>= g) := by
  intro m m' hm
  have hrun := hxy hm
  generalize hx : x m = o, hy : y m' = o' at hrun
  cases hrun with
  | refused he =>
      rw [EvalM.bind_of_error hx]
      exact .refused he
  | never =>
      rw [EvalM.bind_of_none hx, EvalM.bind_of_none hy]
      exact .never
  | @ended r _ _ hn =>
      cases r with
      | error e =>
          rw [EvalM.bind_of_error hx, EvalM.bind_of_error hy]
          exact .ended hn
      | ok a =>
          rw [EvalM.bind_of_ok hx, EvalM.bind_of_ok hy]
          exact hfg a hn

/-- Sparing depth is kept by sequences, but not by catching errors. -/
def compositional : Compositional where
  rel := Spares
  pure :=
    fun a => of_run (r := fun _ => .ok a) (f := fun m => m) (fun _ _ _ =>
      rfl) (fun _ _ h => h)
  fail :=
    fun e => of_run (r := fun _ => .error e) (f := fun m => m) (fun _ _ _ =>
      rfl) (fun _ _ h => h)
  bind := bind
  lookup := fun scope name =>
    of_run (r := fun m => .ok (m.store.lookup scope name)) (f := fun m =>
      m) (fun _ _ h => by rw [h.store]) (fun _ _ h => h)
  record := fun e _ _ =>
    of_run (r := fun _ => .ok ()) (f := fun m => m.record e) (fun _ _ _ =>
      rfl) (fun _ _ h => ⟨h.store, h.made, h.log, h.depth⟩)
  write := fun line =>
    of_run (r := fun _ => .ok ()) (f := fun m => m.write line) (fun _ _ _ => rfl)
      (fun _ _ h => ⟨h.store, h.made, congrArg (·.push line) h.log, h.depth⟩)
  fresh :=
    of_run (r := fun m => .ok m.made) (f := fun m =>
      { m with made := m.made + 1 }) (fun _ _ h => by rw [h.made])
      (fun _ _ h => ⟨h.store, congrArg (· + 1) h.made, h.log, h.depth⟩)
  define := fun scope name value =>
    of_run (r := fun _ => .ok ()) (f := fun m => m.define scope name value)
      (fun _ _ _ => rfl)
      (fun _ _ h => ⟨congrArg (·.define scope name value) h.store,
        h.made, h.log, h.depth⟩)

theorem extendScope (scope : Scope) (name : String) (value : Value) :
    Spares (EvalM.extendScope scope name value)
      (EvalM.extendScope scope name value) :=
  of_run (r := fun m => .ok m.store.next) (f := fun m =>
    { m with store := m.store.pushChild scope name value })
    (fun _ _ h => by rw [h.store])
    (fun _ _ h => ⟨congrArg (·.pushChild scope name value) h.store,
      h.made, h.log, h.depth⟩)

/-- Where there is no room for a body on the first machine, the first run is
refused; where there is, there is room on the second machine too. -/
theorem nested
    {x y : EvalM α}
    (hxy : Spares x y) :
    Spares x.nested y.nested := by
  intro m m' hm
  by_cases hfull : recursionLimit ≤ m.depth
  · rw [EvalM.nested_of_full hfull]
    exact .refused rfl
  · have hopen : m.depth < recursionLimit := Nat.lt_of_not_le hfull
    have hopen' : m'.depth < recursionLimit := Nat.lt_of_le_of_lt hm.depth hopen
    have hentered : ({ m with depth := m.depth + 1 }.record .enter).Roomier
        ({ m' with depth := m'.depth + 1 }.record .enter) :=
      ⟨hm.store, hm.made, hm.log, Nat.succ_le_succ hm.depth⟩
    have hrun := hxy hentered
    generalize hx : x ({ m with depth := m.depth + 1 }.record .enter) = o,
      hy : y ({ m' with depth := m'.depth + 1 }.record .enter) = o' at hrun
    cases hrun with
    | refused he =>
        rw [EvalM.nested_of_open hopen hx]
        exact .refused he
    | never =>
        rw [EvalM.nested_of_none hopen hx, EvalM.nested_of_none hopen' hy]
        exact .never
    | ended hn =>
        rw [EvalM.nested_of_open hopen hx, EvalM.nested_of_open hopen' hy]
        exact .ended ⟨hn.store, hn.made, hn.log, Nat.sub_le_sub_right hn.depth 1⟩

/-- An action that hands errors on is refused if one of its calls is, and else
does the same with more room. -/
theorem action
    {call call' : Caller}
    (hcall : ∀ tag callee argument,
      Spares (call tag callee argument) (call' tag callee argument))
    {a : Action} (ha : a.HandsOn) :
    Spares (a.run call) (a.run call') := by
  induction a with
  | give v =>
      exact compositional.pure v
  | fail e =>
      exact compositional.fail e
  | call callee argument next ih =>
      intro m m' hm
      have hrun := hcall "apply" callee argument hm
      -- The outcome of the call is caught, so the action goes on after a
      -- refusal too; only then does it fail with it.
      have hgoes : ∀ {call : Caller} {m n : Machine} {r : Except EvalError Value},
          call "apply" callee argument m = some (r, n) →
          (Action.call callee argument next).run call m = (next r).run call n := by
        intro call m n r h
        refine EvalM.bind_of_ok ?_
        rw [EvalM.attempt, h]
      have hstops : ∀ {call : Caller} {m : Machine},
          call "apply" callee argument m = none →
            (Action.call callee argument next).run call m = none := by
        intro call m h
        refine EvalM.bind_of_none ?_
        rw [EvalM.attempt, h]
      generalize hx : call "apply" callee argument m = o,
          hy : call' "apply" callee argument m' = o' at hrun
      cases hrun with
      | @refused e n _ he =>
          obtain ⟨n', hn'⟩ := (ha.1 e).run call n
          rw [hgoes hx, hn']
          exact .refused he
      | never =>
          rw [hstops hx, hstops hy]
          exact .never
      | @ended r _ _ hn =>
          rw [hgoes hx, hgoes hy]
          cases r with
          | ok v => exact ih _ (ha.2 v) hn
          | error e => exact ih _ (ha.1 e).handsOn hn
  | write line next ih =>
      exact bind (compositional.write line) fun _ => ih ha
  | make blueprint next ih =>
      rw [Action.run_make, Action.run_make]
      exact bind compositional.fresh fun id => ih _ (ha id)

theorem serves
    {host : Host} (hhost : host.HandsOn) :
    compositional.Serves host where
  builtin :=
    fun hcall name received argument =>
      action hcall (hhost.builtin name received argument)
  operator :=
    fun hcall name symbol left right =>
      action hcall (hhost.operator name symbol left right)

theorem callValue
    {host : Host} (hhost : host.HandsOn) (n : Nat) (tag : String)
    (callee argument : Value) :
    Spares (callValue host n tag callee argument)
      (callValue host n tag callee argument) :=
  compositional.callValue extendScope nested (fun _ _ _ => .never)
    (serves hhost) n tag callee argument

theorem evaluate
    {host : Host} (hhost : host.HandsOn) (table : Table) (scope : Scope)
    (t : Tree) :
    Spares (evaluate host table scope t) (evaluate host table scope t) :=
  compositional.evalTree (callValue hhost callAllowance) (serves hhost) table scope t

end Spares

/-- The run ends with an error of recursion. -/
inductive Refused : Option (Except EvalError Value × Machine) → Prop
  | mk {e : EvalError} {n : Machine} : e.kind = .recursion →
      Refused (some (.error e, n))

instance : DecidablePred Refused
  | none => isFalse nofun
  | some (.ok _, _) => isFalse nofun
  | some (.error e, _) =>
      if h : e.kind = .recursion then isTrue ⟨h⟩ else isFalse fun ⟨he⟩ => h he

/-- How a run ends, and the heap it leaves: the store, the count of values made,
and the log. -/
def ending (o : Option (Except EvalError Value × Machine)) :
    Option (Except EvalError Value × Store × Nat × Array String) :=
  o.map fun p => (p.1, p.2.store, p.2.made, p.2.log)

/-- Depth to spare makes no difference: what is not refused at some depth ends
in the same way at every smaller one, and what is refused is refused at every
larger one. -/
def EvalM.IgnoresSpareDepth (x : EvalM Value) : Prop :=
  ∀ (m : Machine) ⦃d d' : Nat⦄, d' ≤ d →
    (¬ Refused (x { m with depth := d }) →
      ending (x { m with depth := d' }) = ending (x { m with depth := d })) ∧
    (Refused (x { m with depth := d' }) → Refused (x { m with depth := d }))

theorem Spares.ignoresSpareDepth
    {x : EvalM Value}
    (hx : Spares x x) :
    x.IgnoresSpareDepth := by
  intro m d d' hd
  have hroom : Machine.Roomier { m with depth := d } { m with depth := d' } :=
    ⟨rfl, rfl, rfl, hd⟩
  have hrun := hx hroom
  generalize x { m with depth := d } = o, x { m with depth := d' } = o' at hrun ⊢
  cases hrun with
  | refused he =>
      exact ⟨fun h => absurd ⟨he⟩ h, fun _ => ⟨he⟩⟩
  | never =>
      exact ⟨fun _ => rfl, id⟩
  | @ended r n n' hn =>
      refine ⟨fun _ => ?_, ?_⟩
      · simp only [ending, Option.map_some, hn.store, hn.made, hn.log]
      · rintro ⟨he⟩
        exact ⟨he⟩

/-- Where host functions hand errors of their calls on, neither evaluations nor
calls depend on depth to spare. -/
theorem spare_depth_unobservable
    {host : Host} (hhost : host.HandsOn) :
    (∀ (table : Table) (scope : Scope) (t : Tree),
      (evaluate host table scope t).IgnoresSpareDepth) ∧
    ∀ callee argument : Value, (call host callee argument).IgnoresSpareDepth := by
  constructor
  · intro table scope t
    exact (Spares.evaluate hhost table scope t).ignoresSpareDepth
  · intro callee argument
    exact (Spares.callValue hhost callAllowance "apply" callee
      argument).ignoresSpareDepth

/-- A function applied once. -/
def oneCall : Tree :=
  ⟨"declarations", "f x = x; f 1",
    [⟨"function", "f x = x",
      [⟨"variable", "f", []⟩, ⟨"patterns", "x", [⟨"variable", "x", []⟩]⟩,
        ⟨"variable", "x", []⟩]⟩,
      ⟨"apply", "f 1", [⟨"variable", "f", []⟩, ⟨"integer", "1", []⟩]⟩]⟩

/-- The last body that there is room for is evaluated as the first one is, and
the refusal after six bodies is there after one body too. -/
theorem oneCall_in_last_room :
    (¬ Refused (evaluate Host.standard Table.empty Scope.root oneCall
      { almostFull with depth := 4095 }) ∧
      ending (evaluate Host.standard Table.empty Scope.root oneCall
        { almostFull with depth := 0 }) =
        ending (evaluate Host.standard Table.empty Scope.root oneCall
          { almostFull with depth := 4095 })) ∧
    Refused (evaluate Host.standard Table.empty Scope.root selfApplication
      { almostFull with depth := 4090 }) ∧
    Refused (evaluate Host.standard Table.empty Scope.root selfApplication
      { almostFull with depth := 4095 }) := by
  have hignores :=
    (spare_depth_unobservable Host.standard_handsOn).1 Table.empty Scope.root
  have hopen : ¬ Refused
      (evaluate Host.standard Table.empty Scope.root oneCall
        { almostFull with depth := 4095 }) := by
    decide +kernel
  have hrefused :
      Refused (evaluate Host.standard Table.empty Scope.root selfApplication
        { almostFull with depth := 4090 }) := by
    decide +kernel
  refine ⟨⟨hopen, ?_⟩, hrefused, ?_⟩
  · exact (hignores oneCall almostFull (by decide)).1 hopen
  · exact (hignores selfApplication almostFull (by decide)).2 hrefused

end Curried
