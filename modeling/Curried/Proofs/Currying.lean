import Curried.Proofs.DiscardedCalls
import Curried.Proofs.Layers

/-!
# Currying

A function that is applied to its arguments one at a time does what it would do
if it received them all at once.

**Stages.**  `supply call f args` applies a value to arguments one at a time.
With fewer arguments than parameters this makes a frame for each argument and a
function that waits for the rest (`supply_some`); with all arguments it
evaluates the body in the scope of these frames, as the body of one more
function (`supply_all`).

**Allowances.**  What a call does that ends does not change if calls may nest
deeper (`callValue_sooner`).

**Branches.**  Whatever is called in between, a stage does what it would have
done without, but for the numbers of what was made in between (`branchesApart`).

**Result.**  `currying_layers_arguments`.
-/

namespace Curried

/-- Applies a value to arguments, one at a time. -/
def supply (call : Caller) : Value → List Value → EvalM Value
  | f, [] => pure f
  | f, a :: args => do
      let g ← call "apply" f a
      supply call g args

/-- The arguments, bound to the parameters that they are for. -/
def Closure.bindings (c : Closure) (args : List Value) : List (String × Value) :=
  c.parameters.zip args

/-- The machine after the arguments have been layered over the scope of the
function and `k` more values have been made. -/
def Machine.layered (m : Machine) (c : Closure) (args : List Value) (k : Nat) :
    Machine :=
  { m with store := (m.store.layer c.scope (c.bindings args)).1, made := m.made + k }

/-- The scope of the arguments, once they have been layered over the scope of
the function. -/
def Machine.layeredScope (m : Machine) (c : Closure) (args : List Value) : Scope :=
  (m.store.layer c.scope (c.bindings args)).2

/-- The second function is the first one after `k` arguments, which `scope`
has. -/
structure Closure.Continues (c c' : Closure) (k : Nat) (scope : Scope) : Prop where
  name : c'.name = c.name
  body : c'.body = c.body
  table : c'.table = c.table
  params : c'.params = c.params
  next : c'.next = c.next + k
  scope : c'.scope = scope

theorem Closure.Continues.parameters
    {c c' : Closure} {k : Nat} {scope : Scope}
    (h : c.Continues c' k scope) :
    c'.parameters = c.parameters.drop k := by
  rw [Closure.parameters, Closure.parameters, h.params, h.next, List.drop_drop]

/-- The first argument is for the parameter that is waited for, and the others
are for those of the next stage. -/
theorem Closure.bindings_cons
    {c : Closure} (hwaits : 1 ≤ c.arity)
    (scope : Scope) (a : Value) (args : List Value) :
    c.bindings (a :: args) = (c.parameter, a) ::
      (c.advance scope).bindings args := by
  rw [← c.length_parameters] at hwaits
  obtain ⟨x, xs, hparameters⟩ := List.exists_cons_of_length_pos hwaits
  rw [Closure.bindings, Closure.bindings, c.parameters_advance, hparameters,
    c.parameter_eq hparameters]
  rfl

section Stages

variable (host : Host) (n : Nat)

/-- The layers of a stage and of the arguments that it receives are the layers
of all arguments together. -/
theorem Machine.layered_stage
    {c : Closure} (hwaits : 1 ≤ c.arity)
    (m : Machine) (a : Value) (args : List Value) (k : Nat) :
    let stage : Closure := c.advance m.store.next
    let next : Machine := { m.extended c a with made := m.made + 1 }
    next.layered stage args k = m.layered c (a :: args) (k + 1) ∧
      next.layeredScope stage args = m.layeredScope c (a :: args) := by
  have hbindings := Closure.bindings_cons hwaits m.store.next a args
  intro stage next
  constructor
  · simp only [Machine.layered, hbindings, Store.layer]
    rw [Nat.add_comm k 1, ← Nat.add_assoc]
    rfl
  · simp only [Machine.layeredScope, hbindings, Store.layer]
    rfl

/-- An argument that is not the last one makes a frame and the next stage, which
the other arguments are supplied to. -/
theorem supply_stage
    (id : Nat) {c : Closure} (hmore : c.arity ≠ 1)
    (m : Machine) (a : Value) (args : List Value) :
    supply (callValue host (n + 1)) (.function id c) (a :: args) m =
      supply (callValue host (n + 1))
        (.function m.made (c.advance m.store.next)) args
        { m.extended c a with made := m.made + 1 } :=
  EvalM.bind_of_ok (callValue_stage host n "apply" id a m hmore)

/-- Fewer arguments than parameters make a frame each, and a function that waits
for the rest. -/
theorem supply_some
    (id : Nat) {c : Closure} {args : List Value} (m : Machine)
    (hargs : args.length < c.arity) :
    ∃ id' c', supply (callValue host (n + 1)) (.function id c) args m =
        some (.ok (.function id' c'), m.layered c args args.length) ∧
      c.Continues c' args.length (m.layeredScope c args) := by
  induction args generalizing id c m with
  | nil =>
      refine ⟨id, c, ?_, rfl, rfl, rfl, rfl, rfl, ?_⟩
      · simp only [Machine.layered, Closure.bindings, List.zip_nil_right,
          Store.layer]
        rfl
      · simp only [Machine.layeredScope, Closure.bindings, List.zip_nil_right,
          Store.layer]
  | cons a args ih =>
      rw [List.length_cons] at hargs
      have hrest : args.length < (c.advance m.store.next).arity := by
        rw [c.arity_advance]
        omega
      have hwaits : 1 ≤ c.arity := by omega
      obtain ⟨hmachine, hscope⟩ := Machine.layered_stage hwaits m a args args.length
      obtain ⟨id', c', hrun, hcontinues⟩ := ih m.made _ hrest
      refine ⟨id', c', ?_, hcontinues.name, hcontinues.body, hcontinues.table,
        hcontinues.params, ?_, hcontinues.scope.trans hscope⟩
      · rw [supply_stage host n id (by omega), hrun, hmachine]
        rfl
      · rw [hcontinues.next]
        exact Nat.succ_add_eq_add_succ c.next args.length

/-- All arguments make a frame each, and the body is evaluated in the scope of
these frames. -/
theorem supply_all
    (id : Nat) {c : Closure} {args : List Value} (m : Machine)
    (hargs : args.length = c.arity) (hwaits : 1 ≤ c.arity) :
    supply (callValue host (n + 1)) (.function id c) args m =
      EvalM.nested (evalTree host (callValue host n) c.table
        (m.layeredScope c args) c.body)
        (m.layered c args (args.length - 1)) := by
  induction args generalizing id c m with
  | nil =>
      rw [← hargs] at hwaits
      cases hwaits
  | cons a args ih =>
      by_cases hlast : c.arity = 1
      · obtain rfl : args = [] := by simpa [hlast] using hargs
        have hbindings : c.bindings [a] = [(c.parameter, a)] := by
          rw [Closure.bindings_cons hwaits c.scope, Closure.bindings,
            List.zip_nil_right]
        have hcall : supply (callValue host (n + 1)) (.function id c) [a] m =
            callValue host (n + 1) "apply" (.function id c) a m :=
          congrFun (EvalM.bind_pure _) m
        rw [hcall, callValue_last host n "apply" id a m hlast]
        simp only [Machine.layered, Machine.layeredScope, hbindings, Store.layer]
        rfl
      · rw [List.length_cons] at hargs
        have hrest : (c.advance m.store.next).arity = c.arity - 1 :=
          c.arity_advance _
        obtain ⟨hmachine, hscope⟩ :=
          Machine.layered_stage hwaits m a args (args.length - 1)
        have hlength : args.length - 1 + 1 = (a :: args).length - 1 := by
          rw [List.length_cons]
          omega
        rw [supply_stage host n id hlast, ih m.made _ (by omega) (by omega),
          hmachine, hscope, hlength]
        rfl

end Stages

/-- What the first computation does if it ends, the second one does. -/
def Sooner {α : Type} (x y : EvalM α) : Prop :=
  ∀ ⦃m : Machine⦄ ⦃o : Except EvalError α × Machine⦄, x m = some o → y m = some o

namespace Sooner

variable {α β : Type}

theorem bind
    {x y : EvalM α} {f g : α → EvalM β}
    (hxy : Sooner x y) (hfg : ∀ a, Sooner (f a) (g a)) :
    Sooner (x >>= f) (y >>= g) := by
  intro m o h
  rcases EvalM.bind_eq_some h with ⟨e, he, hr⟩ | ⟨a, mid, ha, hrest⟩
  · rw [EvalM.bind_of_error (hxy he), ← hr]
  · rw [EvalM.bind_of_ok (hxy ha)]
    exact hfg a hrest

theorem attempt
    {x y : EvalM α}
    (hxy : Sooner x y) :
    Sooner x.attempt y.attempt := by
  rintro m ⟨r, m'⟩ h
  obtain ⟨r', hx, rfl⟩ := EvalM.attempt_eq_some h
  rw [EvalM.attempt, hxy hx]

theorem nested
    {x y : EvalM α}
    (hxy : Sooner x y) :
    Sooner x.nested y.nested := by
  intro m o h
  rcases EvalM.nested_eq_some h with ⟨hfull, hr, hm⟩ | ⟨hopen, last, hlast, hm⟩
  · rw [EvalM.nested_of_full hfull, ← hr, ← hm]
  · rw [EvalM.nested_of_open hopen (hxy hlast), ← hm]

/-- Ending sooner is a congruence. -/
def congruence : Congruence where
  rel := Sooner
  pure := fun _ _ _ h => h
  fail := fun _ _ _ h => h
  bind := bind
  attempt := attempt
  lookup := fun _ _ _ _ h => h
  record := fun _ _ _ _ _ h => h
  write := fun _ _ _ h => h
  fresh := fun _ _ h => h
  define := fun _ _ _ _ _ h => h

end Sooner

/-- A call that ends does the same if calls may nest deeper. -/
theorem callValue_sooner
    (host : Host) {n k : Nat} (hnk : n ≤ k) :
    ∀ tag callee argument,
      Sooner (callValue host n tag callee argument)
        (callValue host k tag callee argument) := by
  induction n generalizing k with
  | zero => exact fun _ _ _ _ _ h => nomatch h
  | succ n ih =>
      obtain ⟨k, rfl⟩ : ∃ j, k = j + 1 := ⟨k - 1, by omega⟩
      exact Sooner.congruence.callValue_succ (fun _ _ _ _ _ h => h)
        Sooner.nested (Sooner.congruence.serves host)
        (ih (Nat.le_of_succ_le_succ hnk))

/-- Supplying what belongs together gives what belongs together. -/
theorem Simulation.supply
    {S : Simulation} {host : Host} {w₀ : S.World}
    (hhost : host.Discreet S.toKinship w₀) (n : Nat)
    {w : S.World} (hw₀ : S.later w₀ w) {f f' : Value} {args args' : List Value}
    (hf : f.Kin S.toKinship w f') (hargs : ValuesKin S.toKinship w args args') :
    S.GivesKin w (supply (Curried.callValue host n) f args)
      (supply (Curried.callValue host n) f' args') := by
  induction args generalizing args' w f f' with
  | nil =>
      cases hargs
      exact .pure fun _ hw => hf.later hw
  | cons a args ih =>
      cases hargs with
      | cons ha hrest =>
          refine .bind (S.callValue hhost n hw₀ "apply" hf ha)
            fun w₁ g g' hw hg => ?_
          exact ih (S.later_trans hw₀ hw) hg (ValuesKin.later hrest hw)

/-- Calls in between make no difference: after them, supplying the value with
arguments does what it does without them, but for a renaming that keeps all that
was there before. -/
def BranchesApart (host : Host) (f : Value) (m : Machine) : Prop :=
  ∀ (calls : List (Value × Value)) (m' : Machine),
    discardCalls host calls m = some m' →
    ∀ args : List Value, (∀ a ∈ args, a.Known m.extent) →
      ∃ ρ : Renaming, ρ.Fixes m.extent ∧
        (Simulation.renaming .exact ρ).Ends (Value.Renamed .exact ρ) m.extent
          (supply (callValue host callAllowance) f args m)
          (supply (callValue host callAllowance) f args m')

/-- Where the host does the same with renamed values, branches are apart. -/
theorem branchesApart
    {host : Host} {m : Machine} (hhost : host.Impartial .exact m.extent)
    (hm : m.Closed)
    {f : Value} (hf : f.Known m.extent) :
    BranchesApart host f m := by
  intro calls m' hcalls args hargs
  obtain ⟨hextends, hgrown⟩ := discardCalls_grows hcalls
  have hfixes := Renaming.shift_fixes m.extent m'.extent
  have hkin : ValuesKin (.renaming .exact (.shift m.extent m'.extent)) m.extent
      args args :=
    List.forall₂_same.2 fun a ha => (hargs a ha).renamed hfixes
  have hgives := Simulation.supply (S := .renaming .exact _) (hhost _ hfixes)
    callAllowance (le_refl _) (hf.renamed hfixes) hkin
  exact ⟨_, hfixes, hgives.ends (hm.renamed hextends hgrown)⟩

/-- Supplying a known value with known arguments leaves a closed machine and
gives a known value, if the host hands out only what is known. -/
theorem closed_of_supply
    {host : Host} {m : Machine} (hhost : host.Sealed m.extent) (hm : m.Closed)
    {f : Value} (hf : f.Known m.extent)
    {args : List Value} {v : Value} {m' : Machine}
    (hargs : ∀ a ∈ args, a.Known m.extent)
    (hrun : supply (callValue host callAllowance) f args m = some (.ok v, m')) :
    m'.Closed ∧ v.Known m'.extent := by
  have hfixes := Renaming.refl_fixes m.extent
  have hkin : ValuesKin (.renaming .exact .refl) m.extent args args :=
    List.forall₂_same.2 fun a ha => (hargs a ha).renamed hfixes
  have hgives := Simulation.supply (S := .renaming .exact .refl) hhost callAllowance
    (le_refl _) (hf.renamed hfixes) hkin
  obtain ⟨hclosed, hvalue⟩ := leaves_of_givesKin hgives hm.renamed_self hrun
  exact ⟨hclosed, hvalue v rfl⟩

/-- The machine with one more body under evaluation. -/
def Machine.entered (m : Machine) : Machine :=
  { m with depth := m.depth + 1 }.record .enter

/-- The machine with one body fewer under evaluation. -/
def Machine.left (m : Machine) : Machine :=
  Machine.record { m with depth := m.depth - 1 } .leave

/-- A body that there is room for is evaluated one level deeper. -/
theorem EvalM.nested_eq_map
    {α : Type} (body : EvalM α) {m : Machine}
    (hopen : m.depth < recursionLimit) :
    nested body m = (body m.entered).map fun o => (o.1, o.2.left) := by
  cases h : body m.entered with
  | none => exact nested_of_none hopen h
  | some o => exact nested_of_open hopen h

/-- **Currying.**  Take any function in a state that emerges, at whatever depth
of calls, and supply it with arguments one at a time.  The host may be any.

With fewer arguments than parameters this succeeds and evaluates nothing.  It
only adds a frame for each argument, and gives a function with the name, the
body and the table of the first one that waits for the parameters that are
left.  From its scope a name is seen as it was bound last among the arguments,
and else as it is seen from the scope of the first function at the time of the
lookup.  If what the host does depends on no numbers of values and frames, this
function can be supplied with further arguments again and again, and whatever is
called in between, each time comes out as if it were the only one.

With all arguments this evaluates the body, under the table of the function and
one level deeper, in the scope in which the arguments are layered over the scope
of the function; or it is refused where there is no room for a further level. -/
theorem currying_layers_arguments
    {s : Session} (hs : s.Emerges) (host : Host) (depth : Nat)
    {id : Nat} {c : Closure} (hc : (Value.function id c).Known s.machine.extent)
    (args : List Value) :
    let m : Machine := { s.machine with depth := depth }
    let f : Value := .function id c
    (args.length < c.arity →
      ∃ id' c',
        supply (callValue host callAllowance) f args m =
          some (.ok (.function id' c'), m.layered c args args.length) ∧
        c.Continues c' args.length (m.layeredScope c args) ∧
        c'.parameters = c.parameters.drop args.length ∧
        m.store.Extends (m.layered c args args.length).store ∧
        (m.layered c args args.length).store.Ordered ∧
        (∀ s' : Store, s'.Ordered →
          m.store.KeepsNew (m.layered c args args.length).store s' →
          ∀ x, s'.lookup c'.scope x =
            ((c.bindings args).reverse.lookup x).or (s'.lookup c.scope x)) ∧
        (host.Impartial .exact s.machine.extent →
          (∀ a ∈ args, a.Known s.machine.extent) →
          BranchesApart host (.function id' c') (m.layered c args args.length))) ∧
    (args.length = c.arity →
      (recursionLimit ≤ depth →
        supply (callValue host callAllowance) f args m =
          some (.error .recursionLimit, m.layered c args (args.length - 1))) ∧
      (depth < recursionLimit →
        (∀ n, supply (callValue host (n + 1)) f args m =
          (evalTree host (callValue host n) c.table (m.layeredScope c args) c.body
            (m.layered c args (args.length - 1)).entered).map fun o =>
              (o.1, o.2.left)) ∧
        ∀ r m', supply (callValue host callAllowance) f args m = some (r, m') →
          ∃ last,
            evaluate host c.table (m.layeredScope c args) c.body
                (m.layered c args (args.length - 1)).entered =
              some (r, last) ∧
            m' = last.left)) := by
  intro m f
  have hclosed : m.Closed := hs.closed.atDepth depth
  have hordered : m.store.Ordered := hclosed.earlier
  have hknown : c.Known m.extent := by
    cases hc with
    | function _ hknown => exact hknown
  have hwaits : 1 ≤ c.arity := Nat.sub_pos_of_lt hknown.waits
  have hallowance : callAllowance = callAllowance - 1 + 1 := by decide
  constructor
  · intro hargs
    obtain ⟨id', c', hrun, hcontinues⟩ :=
      supply_some host (callAllowance - 1) id m hargs
    rw [← hallowance] at hrun
    refine ⟨id', c', hrun, hcontinues, hcontinues.parameters,
      m.store.layer_extends c.scope _, hordered.layer _ hknown.scope, ?_, ?_⟩
    · intro s' hs' hnew x
      rw [hcontinues.scope]
      exact Store.lookup_layer (c.bindings args) hnew hs' x
    · intro hhost hargs
      have hhost : host.Impartial .exact m.extent := hhost
      obtain ⟨hclosed', hvalue⟩ :=
        closed_of_supply hhost.isSealed hclosed hc hargs hrun
      have hextent : m.extent ≤ (m.layered c args args.length).extent :=
        ⟨Nat.le_add_right _ _,
          Store.Extends.size_le (m.store.layer_extends c.scope _)⟩
      exact branchesApart (hhost.after hextent) hclosed' hvalue
  · intro hargs
    have hall := fun n => supply_all host n id m hargs hwaits
    constructor
    · intro hfull
      have hrefused := hall (callAllowance - 1)
      rw [← hallowance] at hrefused
      rw [hrefused]
      exact EvalM.nested_of_full hfull _
    · intro hopen
      have hentered := fun n => (hall n).trans (EvalM.nested_eq_map _ hopen)
      refine ⟨hentered, fun r m' hrun => ?_⟩
      rw [hallowance, hentered] at hrun
      obtain ⟨⟨r', last⟩, hlast, hend⟩ := Option.map_eq_some_iff.1 hrun
      cases hend
      have hsooner := Sooner.congruence.evalTree
        (callValue_sooner host (Nat.sub_le callAllowance 1)) host c.table
        (m.layeredScope c args) c.body
      exact ⟨last, hsooner hlast, rfl⟩

/-- The parameters of a function. -/
def Value.parameters : Value → List String
  | .function _ c => c.parameters
  | _ => []

/-- The function `f x y = x`, supplied with one argument and, where there is no
room for its body, with two. -/
theorem spinning_curries :
    ∃ id c, spinning.valueOf "f" = .function id c ∧
      (Value.function id c).Known spinning.machine.extent ∧
      (∃ id' c', supply (callValue Host.peeking callAllowance) (.function id c) [.unit]
          { spinning.machine with depth := 0 } =
            some (.ok (.function id' c'),
              Machine.layered { spinning.machine with depth := 0 } c [.unit] 1) ∧
        c'.parameters = ["y"] ∧
        BranchesApart Host.peeking (.function id' c')
          (Machine.layered { spinning.machine with depth := 0 } c [.unit] 1)) ∧
      supply (callValue Host.peeking callAllowance) (.function id c) [.unit, .unit]
          { spinning.machine with depth := recursionLimit } =
        some (.error .recursionLimit,
          Machine.layered { spinning.machine with depth := recursionLimit } c
            [.unit, .unit] 1) := by
  have hparameters :
      (spinning.machine.store.lookup Scope.root "f").map Value.parameters =
        some ["x", "y"] := by
    decide +kernel
  obtain ⟨v, hfound, hv⟩ := Option.map_eq_some_iff.1 hparameters
  have hvalue : spinning.valueOf "f" = v := by
    rw [Session.valueOf, hfound]
    rfl
  have hknown := spinning_emerges.closed.lookup hfound
  cases v with
  | unit | number | text | builtin | foreign => cases hv
  | function id c =>
      have hcurrying := fun depth args =>
        currying_layers_arguments spinning_emerges Host.peeking depth hknown args
      have harity : c.arity = 2 := by
        rw [← c.length_parameters]
        exact congrArg List.length hv
      obtain ⟨id', c', hrun, -, hrest, -, -, -, hbranches⟩ :=
        (hcurrying 0 [.unit]).1 (by rw [harity]; decide)
      refine ⟨id, c, hvalue, hknown, ⟨id', c', hrun, ?_, ?_⟩, ?_⟩
      · rw [hrest, show c.parameters = ["x", "y"] from hv]
        rfl
      · exact hbranches (Host.peeking_impartial _) (by simpa using .unit)
      · exact ((hcurrying recursionLimit [.unit, .unit]).2 harity.symm).1
          (Nat.le_refl _)

end Curried
