import Curried.Proofs.ClosedMachines
import Curried.Proofs.FrameLaw
import Curried.Proofs.Outlook

/-!
# Calls whose outcome is discarded

A call leaves its frames behind, and the functions that it has made.  Nothing
that was there before refers to them, so whatever is done afterwards does what
it would have done without the call, except that values and frames get later
numbers.

**Discarding.**  `discardCalls host calls m` makes calls one after the other and
drops their outcomes, values or errors.

**Correspondence.**  `Corresponds L ρ scope o o'` says that two interpretations
gave the same error, or the same value but for renaming, and left the same names
in the scope, bound to the same values but for renaming.  Functions among them
have bodies that are alike.

**Result.**  `discarded_calls_unobservable`.
-/

namespace Curried

/-- Calls values one after the other, whatever comes of it. -/
def discardCalls (host : Host) : List (Value × Value) → Machine → Option Machine
  | [], m => some m
  | (callee, argument) :: calls, m =>
      (call host callee argument m).bind fun o => discardCalls host calls o.2

/-- The interpretations gave the same error, or the same value but for renaming,
and left the same names in the scope, which stand for the same values but for
renaming. -/
structure Corresponds (L : Likeness) (ρ : Renaming) (scope : Scope)
    (o o' : Except InterpretError Value × Machine) : Prop where
  outcome : (∃ e, o.1 = .error e ∧ o'.1 = .error e) ∨
    ∃ v v', o.1 = .ok v ∧ o'.1 = .ok v' ∧ v.Renamed L ρ o.2.extent v'
  names : o.2.store.names scope = o'.2.store.names scope
  values : ∀ x, Option.Rel (Value.Renamed L ρ o.2.extent)
    (o.2.store.lookup scope x) (o'.2.store.lookup scope x)

/-- Calls change no frame that was there before them, and do not lose count. -/
theorem discardCalls_grows
    {host : Host} {calls : List (Value × Value)} {m m' : Machine}
    (h : discardCalls host calls m = some m') :
    m.store.Extends m'.store ∧ m.Grown m' := by
  induction calls generalizing m with
  | nil =>
      cases h
      exact ⟨.refl _, .refl _⟩
  | cons c calls ih =>
      obtain ⟨callee, argument⟩ := c
      obtain ⟨⟨r, mid⟩, hcall, hrest⟩ := Option.bind_eq_some_iff.1 h
      obtain ⟨hextends, hgrown⟩ := ih hrest
      have hfirst :=
        callValue_extends host callAllowance "apply" callee argument hcall
      exact ⟨hfirst.trans hextends,
        (callValue_grows host callAllowance "apply" callee argument hcall).trans
        hgrown⟩

section Windows

variable {L : Likeness} {ρ : Renaming} {w : Extent} {scope : Scope}

/-- What keeps its number can be looked at from both runs. -/
theorem Renaming.Fixes.window
    (hρ : ρ.Fixes w) (hscope : scope.index < w.frames) :
    (Simulation.renaming L ρ).Window w scope where
  program := fun _ t => ⟨rfl, (hρ.scope hscope).symm, hscope, L.refl t⟩
  names := by
    intro w₁ m m' hw hm
    have hknown : scope.index < m.store.frames.size :=
      hm.frames ▸ Nat.lt_of_lt_of_le hscope hw.2
    have hnames := hm.store.names_eq hknown
    rwa [hρ.scope hscope] at hnames

theorem Renaming.Fixes.corresponds
    (hρ : ρ.Fixes w) (hscope : scope.index < w.frames)
    {o o' : Except InterpretError Value × Machine}
    (h : (Simulation.renaming L ρ).Outcomes w o o') :
    Corresponds L ρ scope o o' := by
  have hvalues : ∀ {w₁ : Extent} {m m' : Machine}, w ≤ w₁ → m.Renamed L ρ w₁ m' →
      ∀ x, Option.Rel (Value.Renamed L ρ m.extent) (m.store.lookup scope x)
        (m'.store.lookup scope x) := by
    intro w₁ m m' hw hm x
    have hknown : scope.index < m.store.frames.size :=
      hm.frames ▸ Nat.lt_of_lt_of_le hscope hw.2
    have hfound := hm.store.lookup hknown x
    rwa [hρ.scope hscope, ← hm.extent] at hfound
  cases h with
  | error e hw hm =>
      exact ⟨Or.inl ⟨e, rfl, rfl⟩, (hρ.window hscope).names hw hm, hvalues hw hm⟩
  | ok hw hm hv =>
      refine ⟨Or.inr ⟨_, _, rfl, rfl, ?_⟩, (hρ.window hscope).names hw hm,
        hvalues hw hm⟩
      exact (Machine.Renamed.extent hm).symm ▸ hv

end Windows

/-- **Discarded calls are unobservable.**  In every state that emerges, at
whatever depth of calls: after calls whose outcomes are discarded, be they
values or errors, the evaluation of a tree in a scope of the state looks the
same as without them, and so do all programs that are run in the scope later.
The outcomes are the same error, or the same value but for a renaming that keeps
all that was there before; so are the values that the names in the scope stand
for.  A call of values that are known in the state has the same outcome as
without the discarded calls; in particular, a call that is made again.

What the host does must not depend on the numbers of values and frames, but may
depend on all else that there is to a function: its name, its parameters, its
body and its table. -/
theorem discarded_calls_unobservable
    {s : Session} (hs : s.Emerges)
    {host : Host} (hhost : host.Impartial .exact s.machine.extent) (depth : Nat)
    {calls : List (Value × Value)} {m' : Machine}
    (hcalls : discardCalls host calls { s.machine with depth := depth } = some m') :
    (∀ (scope : Scope), scope.index < s.machine.store.frames.size →
      ∀ (table : Table) (t : Tree),
        LooksSame host scope
          (runTree host table scope t { s.machine with depth := depth })
          (runTree host table scope t m') ∧
        ∃ ρ : Renaming, ρ.Fixes s.machine.extent ∧
          Corresponds .exact ρ scope
            (runTree host table scope t { s.machine with depth := depth })
            (runTree host table scope t m')) ∧
    ∀ callee argument : Value,
      callee.Known s.machine.extent → argument.Known s.machine.extent →
      (call host callee argument { s.machine with depth := depth }).map
          (·.1.map Value.face) =
        (call host callee argument m').map (·.1.map Value.face) := by
  obtain ⟨hextends, hgrown⟩ := discardCalls_grows hcalls
  have hrenamed :=
    (hs.closed.atDepth depth).renamed (L := .exact) hextends hgrown
  have hfixes := Renaming.shift_fixes s.machine.extent m'.extent
  have hhost := hhost _ hfixes
  constructor
  · intro scope hscope table t
    have hwindow := hfixes.window (L := .exact) hscope
    have houtcomes := Simulation.runTree (S := .renaming .exact _) hhost hrenamed
      (hwindow.program table t)
    exact ⟨hwindow.looksSame hhost houtcomes, _, hfixes,
      hfixes.corresponds hscope houtcomes⟩
  · intro callee argument hcallee hargument
    have hcall := Simulation.callValue (S := .renaming .exact _) hhost
      callAllowance (le_refl _)
      "apply" (hcallee.renamed hfixes) (hargument.renamed hfixes)
    have hends := hcall.ends hrenamed
    unfold call
    generalize callValue host callAllowance "apply" callee argument
      { s.machine with depth := depth } = o at hends
    generalize callValue host callAllowance "apply" callee argument m' = o' at hends
    cases hends with
    | never => rfl
    | together _ _ hboth =>
        cases hboth with
        | error e => rfl
        | ok hv => simp only [Option.map_some, Except.map, hv.face_eq]

/-- A session with a function of two parameters and one that calls itself
without end. -/
def spinning : Session :=
  (Session.initial.move Host.standard
    (.step (.eval "f x y = x; spin x = spin x" "main" none none))).2

theorem spinning_emerges : spinning.Emerges :=
  .move Host.standard _ .initial (Host.standard_sealed _)

/-- What a name stands for in the session. -/
def Session.valueOf (s : Session) (x : String) : Value :=
  (s.machine.store.lookup Scope.root x).getD .unit

/-- The standard host with a function that tells all that is shown when a value
is inspected: the name, the parameters and the body of a function. -/
def Host.peeking : Host where
  builtin := fun name received argument =>
    if name = "peek" then .give (.text argument.inspect)
    else Host.standard.builtin name received argument
  operator := Host.standard.operator

theorem Value.Renamed.inspect_eq
    {ρ : Renaming} {w : Extent} {v v' : Value}
    (h : v.Renamed .exact ρ w v') :
    v.inspect = v'.inspect := by
  cases h with
  | @function _ _ c c' _ hc =>
      have hparameters : c.parameters = c'.parameters := by
        rw [Closure.parameters, Closure.parameters, hc.params, hc.next]
      have hbody : c.body = c'.body := hc.body
      change c.inspect = c'.inspect
      unfold Closure.inspect
      rw [hc.name, hparameters, hbody]
  | _ => rfl

theorem Host.peeking_impartial
    (w : Extent) :
    Host.peeking.Impartial .exact w := by
  intro ρ hρ
  have hstandard := Host.standard_impartial .exact w ρ hρ
  refine ⟨fun {w'} hw name {received received' argument argument'} hreceived
    hargument => ?_, hstandard.operator⟩
  by_cases hname : name = "peek"
  · simp only [Host.peeking, if_pos hname, Value.Renamed.inspect_eq hargument]
    exact .give (.text _)
  · simp only [Host.peeking, if_neg hname]
    exact hstandard.builtin hw name hreceived hargument

/-- What that host function tells of `f`. -/
def peekedF : String :=
  "Closure \x7b name: \"f\", remaining_parameters: [\"x\", \"y\"], " ++
    "body: \"= x\", .. \x7d"

/-- A partial application and a call that is one too deep make frames and
functions that nobody can see, not even a host that looks at parameters and
bodies. -/
theorem spinning_looks_same :
    let m : Machine := { spinning.machine with depth := recursionLimit - 1 }
    ∃ m' : Machine,
      discardCalls Host.peeking [(spinning.valueOf "f", .unit),
        (spinning.valueOf "spin", .unit)] m = some m' ∧
      ((call Host.peeking (spinning.valueOf "spin") .unit m).map
        fun o => failure? (o.1.mapError .failed)) =
          some (some .recursionLimit) ∧
      ((call Host.peeking (.builtin 0 "peek" []) (spinning.valueOf "f") m').map
        fun o => o.1.toOption.map Value.display) = some (some peekedF) ∧
      m.extent = ⟨2, 1⟩ ∧ m'.extent = ⟨3, 4⟩ ∧
      ∀ (table : Table) (t : Tree), LooksSame Host.peeking Scope.root
        (runTree Host.peeking table Scope.root t m)
        (runTree Host.peeking table Scope.root t m') := by
  have hrun : (discardCalls Host.peeking
      [(spinning.valueOf "f", .unit), (spinning.valueOf "spin", .unit)]
      { spinning.machine with depth := recursionLimit - 1 }).map (fun m' =>
        (m'.extent,
          (call Host.peeking (.builtin 0 "peek" []) (spinning.valueOf "f")
            m').map fun o => o.1.toOption.map Value.display)) =
      some (⟨3, 4⟩, some (some peekedF)) := by
    decide +kernel
  obtain ⟨m', hcalls, hshown⟩ := Option.map_eq_some_iff.1 hrun
  obtain ⟨hextent, hpeeked⟩ := Prod.mk.inj hshown
  refine ⟨m', hcalls, by decide +kernel, hpeeked, by decide +kernel, hextent,
    fun table t => ?_⟩
  have hall := (discarded_calls_unobservable spinning_emerges
    (Host.peeking_impartial _) (recursionLimit - 1) hcalls).1
  exact (hall Scope.root (by decide +kernel) table t).1

end Curried
