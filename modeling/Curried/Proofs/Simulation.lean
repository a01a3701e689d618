import Curried.Proofs.Code
import Curried.Proofs.Kinship

/-!
# Two runs side by side

Two evaluations that keep step with each other: whatever one does the other does
as well, on a machine that belongs to that of the first, with values that belong
to those of the first.

**Pairings.**  A `Pairing` says which values, which machines and which trees of
two runs belong together.  Of a tree it says so for the `Site` of its
evaluation, that is for its table and its scope.  `Plan.Aligned` says that two
plans do the same with what belongs together.

**Likenesses.**  Bodies of functions that belong together are the same, or
differ in their wording only.  A `Likeness` says which of the two is meant.

**Simulations.**  A `Simulation` is a pairing with one law for each thing that
an evaluation does to a machine, and such that trees that belong together have
aligned cores.

**Results.**
* `Simulation.evalTree`: evaluating trees that belong together gives the same
  error or values that belong together.
* `Simulation.callValue`: so does calling values that belong together.
* `Simulation.runTree`: so does interpreting trees that belong together.
-/

namespace Curried

/-- Where a tree is evaluated: the table in force, and the scope. -/
structure Site where
  table : Table
  scope : Scope

/-- The value of a name as seen from a scope, or the error that it has none. -/
def Store.named (s : Store) (scope : Scope) (x : String) : Except EvalError Value :=
  match s.lookup scope x with
  | some v => .ok v
  | none => .error (.undefined x)

theorem lookupName_eq
    (scope : Scope) (x : String) (m : Machine) :
    lookupName scope x m = some (m.store.named scope x, m) := by
  unfold lookupName Store.named
  rw [EvalM.bind_of_ok (x := EvalM.gets _) rfl]
  cases m.store.lookup scope x <;> rfl

/-- Names that are found together stand for values that belong together, if
those that are not found are the same. -/
theorem Store.both_named
    {R : Value → Value → Prop} {s s' : Store} {scope scope' : Scope} {x x' : String}
    (h : Option.Rel R (s.lookup scope x) (s'.lookup scope' x'))
    (hx : s.lookup scope x = none → x' = x) :
    Both R (s.named scope x) (s'.named scope' x') := by
  unfold Store.named
  generalize s.lookup scope x = o, s'.lookup scope' x' = o' at h hx
  cases h with
  | none =>
      rw [hx rfl]
      exact .error _
  | some hv => exact .ok hv

/-- Which values, machines and trees of two runs belong together. -/
structure Pairing extends Kinship where
  machine : World → Machine → Machine → Prop
  program : World → Site → Site → Tree → Tree → Prop

/-- Binding the names in the scopes of the two sites keeps machines together. -/
def Pairing.Binds (P : Pairing) (w : P.World) (a a' : Site) (x x' : String) : Prop :=
  ∀ ⦃w₁ m m' v v'⦄, P.later w w₁ → P.machine w₁ m m' → v.Kin P.toKinship w₁ v' →
    P.machine w₁ (m.define a.scope x v) (m'.define a'.scope x' v')

/-- The plans, carried out at the two sites, do the same. -/
inductive Plan.Aligned (P : Pairing) (w : P.World) (a a' : Site) :
    Plan → Plan → Prop
  | fail (e : EvalError) :
      Aligned P w a a' (.fail e) (.fail e)
  | give {v v' : Value} :
      (∀ w₁, v.Kin P.toKinship w₁ v') →
      Aligned P w a a' (.give v) (.give v')
  | look {x x' : String} :
      (∀ ⦃w₁ m m'⦄, P.later w w₁ → P.machine w₁ m m' →
        Both (Value.Kin P.toKinship w₁) (m.store.named a.scope x)
          (m'.store.named a'.scope x')) →
      Aligned P w a a' (.look x) (.look x')
  | sequence {parts parts' : List Tree} :
      List.Forall₂ (P.program w a a') parts parts' →
      Aligned P w a a' (.sequence parts) (.sequence parts')
  | define {name name' parameter parameter' : String}
      {others others' : List String} {body body' : Tree} :
      P.function w ⟨name, parameter :: others, 0, body, a.scope, a.table⟩
        ⟨name', parameter' :: others', 0, body', a'.scope, a'.table⟩ →
      P.Binds w a a' name name' →
      Aligned P w a a' (.define name parameter others body)
        (.define name' parameter' others' body')
  | bind {name name' : String} {value value' : Tree} :
      P.program w a a' value value' → P.Binds w a a' name name' →
      Aligned P w a a' (.bind name value) (.bind name' value')
  | operate {left left' right right' : Tree} {symbol : String} :
      P.program w a a' left left' → P.program w a a' right right' →
      a.table.find? symbol = a'.table.find? symbol →
      Aligned P w a a' (.operate left symbol right) (.operate left' symbol right')
  | apply {function function' argument argument' : Tree} :
      P.program w a a' function function' → P.program w a a' argument argument' →
      Aligned P w a a' (.apply function argument) (.apply function' argument')

/-- The plans are the same but for their trees, which are alike. -/
inductive Plan.Alike (like : Tree → Tree → Prop) : Plan → Plan → Prop
  | fail (e : EvalError) : Alike like (.fail e) (.fail e)
  | give (v : Value) : Alike like (.give v) (.give v)
  | look (x : String) : Alike like (.look x) (.look x)
  | sequence {parts parts' : List Tree} :
      List.Forall₂ like parts parts' →
      Alike like (.sequence parts) (.sequence parts')
  | define (name parameter : String) (others : List String) {body body' : Tree} :
      like body body' →
      Alike like (.define name parameter others body)
        (.define name parameter others body')
  | bind (name : String) {value value' : Tree} :
      like value value' → Alike like (.bind name value) (.bind name value')
  | operate (symbol : String) {left left' right right' : Tree} :
      like left left' → like right right' →
      Alike like (.operate left symbol right) (.operate left' symbol right')
  | apply {function function' argument argument' : Tree} :
      like function function' → like argument argument' →
      Alike like (.apply function argument) (.apply function' argument')

/-- Which trees are taken for the same.  If two trees are, so are the trees in
their cores. -/
structure Likeness where
  like : Tree → Tree → Prop
  refl : ∀ t, like t t
  core : ∀ {t t'}, like t t' → t.core.Alike like t'.core

/-- The two sites treat the code alike: names stand for values that belong
together and can be bound, and what the code has to do with belongs together. -/
structure Pairing.Agrees
    (P : Pairing) (like : Tree → Tree → Prop) (w : P.World) (a a' : Site)
    (c : Code) :
    Prop where
  look : ∀ (x : String) ⦃w₁ m m'⦄, P.later w w₁ → P.machine w₁ m m' →
    Both (Value.Kin P.toKinship w₁) (m.store.named a.scope x)
      (m'.store.named a'.scope x)
  binds : ∀ x : String, P.Binds w a a' x x
  parts : ∀ ⦃t t' : Tree⦄, t.code ∈ c.parts → like t t' → P.program w a a' t t'
  function : ∀ ⦃name parameter : String⦄ ⦃others : List String⦄ ⦃body body' : Tree⦄,
    c = .define name parameter others body.code → like body body' →
    P.function w ⟨name, parameter :: others, 0, body, a.scope, a.table⟩
      ⟨name, parameter :: others, 0, body', a'.scope, a'.table⟩
  symbol : ∀ ⦃left right : Code⦄ ⦃symbol : String⦄,
    c = .operate left symbol right → a.table.find? symbol = a'.table.find? symbol

/-- A value that a tree stands for by itself belongs to itself. -/
theorem Tree.kin_of_core
    {t : Tree} {v : Value}
    (h : t.core = .give v) (K : Kinship) (w : K.World) :
    v.Kin K w v := by
  rcases t.literal_of_core h with ⟨x, rfl⟩ | ⟨s, rfl⟩
  · exact .number x
  · exact .text s

/-- Trees with the same codes have them one by one. -/
theorem Tree.forall₂_code
    {ts ts' : List Tree}
    (h : ts.map code = ts'.map code) :
    List.Forall₂ (fun t t' => t.code = t'.code) ts ts' := by
  rwa [← List.forall₂_eq_eq_eq, List.forall₂_map_left_iff,
    List.forall₂_map_right_iff] at h

/-- Trees that are the same are alike. -/
def Likeness.exact : Likeness where
  like := Eq
  refl := fun _ => rfl
  core := by
    rintro t _ rfl
    have hfollows := t.core_follows
    generalize t.core = p, t.code = c at hfollows
    cases hfollows with
    | fail e => exact .fail e
    | give v => exact .give v
    | look x => exact .look x
    | sequence _ => exact .sequence (List.forall₂_same.2 fun _ _ => rfl)
    | define name parameter others _ => exact .define name parameter others rfl
    | bind name _ => exact .bind name rfl
    | operate symbol _ _ => exact .operate symbol rfl rfl
    | apply _ _ => exact .apply rfl rfl

/-- Trees with the same code are alike. -/
def Likeness.code : Likeness where
  like := fun t t' => t.code = t'.code
  refl := fun _ => rfl
  core := by
    intro t t' hcode
    have hfollows := t.core_follows
    have hfollows' := t'.core_follows
    rw [← hcode] at hfollows'
    generalize t.core = p at hfollows
    generalize t'.core = p' at hfollows'
    generalize t.code = c at hfollows hfollows'
    cases hfollows with
    | fail e =>
        cases hfollows'
        exact .fail e
    | give v =>
        cases hfollows'
        exact .give v
    | look x =>
        cases hfollows'
        exact .look x
    | sequence hparts =>
        cases hfollows' with
        | sequence hparts' =>
            exact .sequence (Tree.forall₂_code (hparts.trans hparts'.symm))
    | define name parameter others hbody =>
        cases hfollows' with
        | define _ _ _ hbody' =>
            exact .define name parameter others (hbody.trans hbody'.symm)
    | bind name hvalue =>
        cases hfollows' with
        | bind _ hvalue' => exact .bind name (hvalue.trans hvalue'.symm)
    | operate symbol hleft hright =>
        cases hfollows' with
        | operate _ hleft' hright' =>
            exact .operate symbol (hleft.trans hleft'.symm)
              (hright.trans hright'.symm)
    | apply hfunction hargument =>
        cases hfollows' with
        | apply hfunction' hargument' =>
            exact .apply (hfunction.trans hfunction'.symm)
              (hargument.trans hargument'.symm)

/-- Trees that are alike do the same at sites that treat their code alike. -/
theorem Likeness.core_aligned
    (L : Likeness) {P : Pairing} {w : P.World} {a a' : Site} {t t' : Tree}
    (hlike : L.like t t') (h : P.Agrees L.like w a a' t.code) :
    t.core.Aligned P w a a' t'.core := by
  have hgive : ∀ v, t.core = .give v → ∀ w₁, v.Kin P.toKinship w₁ v :=
    fun _ hv => Tree.kin_of_core hv P.toKinship
  have hfollows := t.core_follows
  have halike := L.core hlike
  generalize t.core = p at hfollows hgive halike
  generalize t'.core = p' at halike
  generalize t.code = c at hfollows h
  cases halike with
  | fail e => exact .fail e
  | give v => exact .give (hgive v rfl)
  | look x => exact .look (h.look x)
  | sequence halike =>
      cases hfollows with
      | sequence hparts =>
          obtain ⟨hlength, hzip⟩ := List.forall₂_iff_zip.1 halike
          refine .sequence (List.forall₂_iff_zip.2 ⟨hlength, fun {c c'} hmem => ?_⟩)
          exact h.parts (hparts ▸ List.mem_map_of_mem (List.of_mem_zip hmem).1)
            (hzip hmem)
  | define name parameter others halike =>
      cases hfollows with
      | define _ _ _ hbody =>
          exact .define (h.function (by rw [hbody]) halike) (h.binds name)
  | bind name halike =>
      cases hfollows with
      | bind _ hvalue =>
          exact .bind (h.parts (by simp [Code.parts, hvalue]) halike) (h.binds name)
  | operate symbol hlike hlike' =>
      cases hfollows with
      | operate _ hleft hright =>
          refine .operate (h.parts ?_ hlike) (h.parts ?_ hlike') (h.symbol rfl)
          · simp [Code.parts, hleft]
          · simp [Code.parts, hright]
  | apply hlike hlike' =>
      cases hfollows with
      | apply hfunction hargument =>
          refine .apply (h.parts ?_ hlike) (h.parts ?_ hlike')
          · simp [Code.parts, hfunction]
          · simp [Code.parts, hargument]

/-- The machine after a frame for one argument of a function has been added. -/
def Machine.extended (m : Machine) (c : Closure) (argument : Value) : Machine :=
  { m with store := m.store.pushChild c.scope c.parameter argument }

/-- A pairing that evaluations keep. -/
structure Simulation extends Pairing where
  program_later : ∀ {w w' a a' t t'}, later w w' → program w a a' t t' →
    program w' a a' t t'
  program_aligned : ∀ {w a a' t t'}, program w a a' t t' →
    t.core.Aligned toPairing w a a' t'.core
  machine_unrecorded : ∀ {w m m' n n'}, machine w m m' →
    n.unrecorded = m.unrecorded → n'.unrecorded = m'.unrecorded → machine w n n'
  machine_depth : ∀ {w m m'}, machine w m m' → m.depth = m'.depth
  machine_counted : ∀ {w m m'}, machine w m m' →
    ∀ depth, machine w { m with depth := depth } { m' with depth := depth }
  machine_write : ∀ {w m m'}, machine w m m' →
    ∀ line, machine w (m.write line) (m'.write line)
  machine_fresh : ∀ {w m m'}, machine w m m' →
    ∃ w', later w w' ∧ identity w' m.made m'.made ∧
      machine w' { m with made := m.made + 1 } { m' with made := m'.made + 1 }
  function_enter : ∀ {w m m' c c' v v'},
    function w c c' → c.arity = 1 → machine w m m' → v.Kin toKinship w v' →
    ∃ w', later w w' ∧ machine w' (m.extended c v) (m'.extended c' v') ∧
      program w' ⟨c.table, m.store.next⟩ ⟨c'.table, m'.store.next⟩ c.body c'.body
  function_receive : ∀ {w m m' c c' v v'},
    function w c c' → c.arity ≠ 1 → machine w m m' → v.Kin toKinship w v' →
    ∃ w', later w w' ∧ machine w' (m.extended c v) (m'.extended c' v') ∧
      function w' (c.advance m.store.next) (c'.advance m'.store.next)

namespace Simulation

variable {α β : Type} {S : Simulation}

/-- The ends of two runs: neither ends, or both end together. -/
inductive Ends (S : Simulation) (V : S.World → α → α → Prop) (w : S.World) :
    Option (Except EvalError α × Machine) →
    Option (Except EvalError α × Machine) → Prop
  | never : Ends S V w none none
  | together {w' : S.World} {r r' : Except EvalError α} {n n' : Machine} :
      S.later w w' → S.machine w' n n' → Both (V w') r r' →
      Ends S V w (some (r, n)) (some (r', n'))

theorem Ends.since
    {V : S.World → α → α → Prop} {w w' : S.World}
    {o o' : Option (Except EvalError α × Machine)}
    (h : S.Ends V w' o o') (hw : S.later w w') :
    S.Ends V w o o' := by
  cases h with
  | never => exact .never
  | together hw' hn hboth => exact .together (S.later_trans hw hw') hn hboth

/-- Run on machines that belong together, the computations give the same error
or values of which `V` holds. -/
def Parallel (S : Simulation) (V : S.World → α → α →
    Prop) (w : S.World) (x x' : EvalM α) : Prop :=
  ∀ ⦃w₁ m m'⦄, S.later w w₁ → S.machine w₁ m m' → S.Ends V w₁ (x m) (x' m')

/-- The computations give values that belong together. -/
abbrev GivesKin (S : Simulation) : S.World → EvalM Value → EvalM Value → Prop :=
  S.Parallel (Value.Kin S.toKinship)

/-- From the world `w₀` on, calls of values that belong together give values
that belong together. -/
def CallsKin (S : Simulation) (w₀ : S.World) (call call' : Caller) : Prop :=
  ∀ ⦃w callee callee' argument argument'⦄, S.later w₀ w → ∀ tag : String,
    callee.Kin S.toKinship w callee' → argument.Kin S.toKinship w argument' →
    S.GivesKin w (call tag callee argument) (call' tag callee' argument')

namespace Parallel

variable {V : S.World → α → α → Prop} {W : S.World → β → β → Prop} {w w₁ : S.World}

theorem ends
    {x x' : EvalM α} {m m' : Machine}
    (h : S.Parallel V w x x') (hm : S.machine w m m') :
    S.Ends V w (x m) (x' m') :=
  h (S.later_refl w) hm

/-- Computations that end at once and leave the machine alone. -/
theorem of_same
    {x y : EvalM α} {r q : Machine → Except EvalError α}
    (hx : ∀ m, x m = some (r m, m)) (hy : ∀ m, y m = some (q m, m))
    (h : ∀ ⦃w₁ m m'⦄, S.later w w₁ → S.machine w₁ m m' → Both (V w₁) (r m) (q m')) :
    S.Parallel V w x y := by
  intro w₁ m m' hw hm
  rw [hx, hy]
  exact .together (S.later_refl w₁) hm (h hw hm)

theorem pure
    {a a' : α}
    (h : ∀ w₁, S.later w w₁ → V w₁ a a') :
    S.Parallel V w (pure a) (pure a') :=
  of_same (r := fun _ => .ok a) (q := fun _ => .ok a') (fun _ => rfl) (fun _ =>
    rfl) fun _ _ _ hw _ => .ok (h _ hw)

theorem fail (e : EvalError) : S.Parallel V w (EvalM.fail e) (EvalM.fail e) :=
  of_same (r := fun _ => .error e) (q := fun _ => .error e) (fun _ =>
    rfl) (fun _ => rfl) fun _ _ _ _ _ => .error e

theorem ofExcept
    {r r' : Except EvalError α}
    (h : ∀ w₁, S.later w w₁ → Both (V w₁) r r') :
    S.Parallel V w (EvalM.ofExcept r) (EvalM.ofExcept r') :=
  of_same (r := fun _ => r) (q := fun _ => r') (fun _ => by cases r <;> rfl)
    (fun _ => by cases r' <;> rfl) fun _ _ _ hw _ => h _ hw

/-- Computations may be run later. -/
theorem later
    {x x' : EvalM α}
    (h : S.Parallel V w x x') (hw : S.later w w₁) :
    S.Parallel V w₁ x x' :=
  fun _ _ _ hw' => h (S.later_trans hw hw')

theorem bind
    {x x' : EvalM α} {f f' : α → EvalM β}
    (hx : S.Parallel V w x x')
    (hf : ∀ w₁ a a', S.later w w₁ → V w₁ a a' → S.Parallel W w₁ (f a) (f' a')) :
    S.Parallel W w (x >>= f) (x' >>= f') := by
  intro w₁ m m' hw hm
  have hends := hx hw hm
  rcases hxm : x m with _ | ⟨r, n⟩ <;> rcases hxm' : x' m' with _ | ⟨r', n'⟩ <;>
    rw [hxm, hxm'] at hends
  · rw [EvalM.bind_of_none hxm, EvalM.bind_of_none hxm']
    exact .never
  · cases hends
  · cases hends
  · cases hends with
    | together hw' hn hboth =>
        cases hboth with
        | error e =>
            rw [EvalM.bind_of_error hxm, EvalM.bind_of_error hxm']
            exact .together hw' hn (.error e)
        | ok ha =>
            rw [EvalM.bind_of_ok hxm, EvalM.bind_of_ok hxm']
            exact ((hf _ _ _ (S.later_trans hw hw') ha).ends hn).since hw'

theorem attempt
    {x x' : EvalM α}
    (hx : S.Parallel V w x x') :
    S.Parallel (fun w₁ => Both (V w₁)) w x.attempt x'.attempt := by
  intro w₁ m m' hw hm
  have hends := hx hw hm
  unfold EvalM.attempt
  generalize x m = o at hends
  generalize x' m' = o' at hends
  cases hends with
  | never => exact .never
  | together hw' hn hboth => exact .together hw' hn (.ok hboth)

/-- Changing both machines in the same way. -/
theorem update
    {f f' : Machine → Machine}
    (h : ∀ ⦃w₁ m m'⦄, S.later w w₁ → S.machine w₁ m m' →
      S.machine w₁ (f m) (f' m')) :
    S.Parallel (fun _ _ _ => True) w (EvalM.update f) (EvalM.update f') :=
  fun w₁ _ _ hw hm => .together (S.later_refl w₁) (h hw hm) (.ok trivial)

theorem record
    (e e' : Happening) :
    S.Parallel (fun _ _ _ => True) w (EvalM.record e) (EvalM.record e') :=
  update fun _ _ _ _ hm => S.machine_unrecorded hm rfl rfl

theorem fresh : S.Parallel S.identity w EvalM.fresh EvalM.fresh := by
  intro w₁ m m' _ hm
  obtain ⟨w', hw', hmade, hm'⟩ := S.machine_fresh hm
  exact .together hw' hm' (.ok hmade)

theorem makeFunction
    {c c' : Closure}
    (hc : S.function w c c') :
    S.GivesKin w (EvalM.makeFunction c) (EvalM.makeFunction c') := by
  refine bind fresh fun w₁ i i' hw hi => pure fun w₂ hw' => ?_
  exact .function (S.identity_later hw' hi)
    (S.function_later (S.later_trans hw hw') hc)

theorem nested
    {body body' : EvalM Value}
    (hbody : S.GivesKin w body body') :
    S.GivesKin w body.nested body'.nested := by
  have hdepth : S.Parallel (fun _ d d' => d = d') w (EvalM.gets Machine.depth)
      (EvalM.gets Machine.depth) :=
    of_same (r := fun m => .ok m.depth) (q := fun m => .ok m.depth) (fun _ =>
      rfl) (fun _ => rfl)
      fun _ _ _ _ hm => .ok (S.machine_depth hm)
  -- the two counts are the same, so they stay so when both go up or both go
  -- down
  have hcount : ∀ {w₁ : S.World} (g : Nat → Nat) (e : Happening),
      S.Parallel (fun _ _ _ => True) w₁ (EvalM.update fun m =>
        { m with depth := g m.depth }.record e)
        (EvalM.update fun m => { m with depth := g m.depth }.record e) := by
    intro w₁ g e
    refine update fun w₂ m m' _ hm => ?_
    rw [← S.machine_depth hm]
    exact S.machine_unrecorded (S.machine_counted hm _) rfl rfl
  unfold EvalM.nested
  refine bind hdepth fun w₁ d d' hw hd => ?_
  subst hd
  split
  · exact fail _
  · refine bind (hcount (· + 1) .enter) fun w₂ _ _ hw' _ => ?_
    refine bind (hbody.later (S.later_trans hw hw')).attempt fun w₃ r r' _ hr => ?_
    refine bind (hcount (· - 1) .leave) fun w₄ _ _ hw'' _ =>
      ofExcept fun w₅ hw''' => ?_
    exact hr.imp fun _ _ hv => hv.later (S.later_trans hw'' hw''')

/-- Host functions that do the same, with calls that do the same. -/
theorem action
    {w₀ : S.World} {call call' : Caller} (hcall : S.CallsKin w₀ call call')
    {a a' : Action} (hw : S.later w₀ w) (ha : Action.Kin S.toKinship w a a') :
    S.GivesKin w (a.run call) (a'.run call') := by
  induction ha with
  | give hv =>
      exact pure fun _ hw => hv.later hw
  | fail e =>
      exact fail e
  | call hcallee hargument _ ih =>
      refine bind (hcall hw "apply" hcallee hargument).attempt
        fun w₁ r r' hw' hr => ?_
      exact ih w₁ r r' hw' hr (S.later_trans hw hw')
  | write line _ ih =>
      refine bind (update fun _ _ _ _ hm => S.machine_write hm line)
        fun w₁ _ _ hw' _ => ?_
      exact (ih hw).later hw'
  | make _ _ ih =>
      rw [Action.run_make, Action.run_make]
      refine bind fresh fun w₁ i i' hw' hi => ?_
      exact ih w₁ i i' hw' hi (S.later_trans hw hw')

theorem lookupName
    {scope scope' : Scope} {x x' : String}
    (h : ∀ ⦃w₁ m m'⦄, S.later w w₁ → S.machine w₁ m m' →
      Both (Value.Kin S.toKinship w₁) (m.store.named scope x)
        (m'.store.named scope' x')) :
    S.GivesKin w (lookupName scope x) (lookupName scope' x') :=
  of_same (lookupName_eq scope x) (lookupName_eq scope' x') h

end Parallel

/-- Binding a value and giving it. -/
theorem givesKin_bound
    {w w₁ : S.World} {a a' : Site} {x x' : String} {v v' : Value}
    (hbinds : S.Binds w a a' x x') (hw : S.later w w₁)
    (hv : v.Kin S.toKinship w₁ v') :
    S.GivesKin w₁ (do EvalM.define a.scope x v; pure v)
      (do EvalM.define a'.scope x' v'; pure v') := by
  refine .bind (.update fun w₂ m m' hw' hm => ?_) fun w₂ _ _ hw' _ =>
    .pure fun w₃ hw'' => ?_
  · exact hbinds (S.later_trans hw hw') hm (hv.later hw')
  · exact hv.later (S.later_trans hw' hw'')

section Evaluation

variable {host : Host} {call call' : Caller} {w₀ : S.World}
  (hhost : host.Discreet S.toKinship w₀) (hcall : S.CallsKin w₀ call call')
include hhost hcall

theorem applyOperator
    {w : S.World} {table table' : Table} {symbol : String}
    {left left' right right' : Value}
    (hw : S.later w₀ w) (htable : table.find? symbol = table'.find? symbol)
    (hleft : left.Kin S.toKinship w left')
    (hright : right.Kin S.toKinship w right') :
    S.GivesKin w (applyOperator host call table symbol left right)
      (applyOperator host call' table' symbol left' right') := by
  unfold Curried.applyOperator
  rw [← htable]
  split
  · exact .action hcall hw (hhost.operator hw _ symbol hleft hright)
  · split
    · exact .fail _
    · exact hcall hw "infix" hleft hright
    · exact .ofExcept fun w₁ hw =>
        Operator.combine_kin (hleft.later hw) (hright.later hw) _

omit hhost hcall in
theorem evalEach
    {a a' : Site} :
    ∀ {ts ts' : List Tree} {w : S.World} {last last' : Value},
      List.Forall₂ (fun t t' => ∀ w₁, S.later w w₁ →
        S.GivesKin w₁ (evalTree host call a.table a.scope t)
          (evalTree host call' a'.table a'.scope t')) ts ts' →
      last.Kin S.toKinship w last' →
      S.GivesKin w (evalEach host call a.table a.scope ts last)
        (evalEach host call' a'.table a'.scope ts' last')
  | _, _, w, _, _, .nil, hlast => by
      rw [Curried.evalEach, Curried.evalEach]
      exact .pure fun _ hw => hlast.later hw
  | _, _, w, _, _, .cons ht hts, _ => by
      rw [Curried.evalEach, Curried.evalEach]
      refine .bind (ht w (S.later_refl w)) fun w₁ v v' hw hv => ?_
      exact evalEach (hts.imp fun _ _ h w₂ hw' => h w₂ (S.later_trans hw hw')) hv

/-- Evaluating trees that belong together gives the same error or values that
belong together. -/
theorem evalTree
    {w : S.World} (hw₀ : S.later w₀ w)
    {a a' : Site} (t t' : Tree) (h : S.program w a a' t t') :
    S.GivesKin w (evalTree host call a.table a.scope t)
      (evalTree host call' a'.table a'.scope t') := by
  induction t using Tree.core_induction generalizing w t' with
  | step t ih =>
      suffices hrun : S.GivesKin w (t.core.run host call a.table a.scope)
          (t'.core.run host call' a'.table a'.scope) by
        intro w₁ m m' hw hm
        obtain ⟨n, hn, heval⟩ := evalTree_core host call a.table a.scope t m
        obtain ⟨n', hn', heval'⟩ := evalTree_core host call' a'.table a'.scope t' m'
        rw [heval, heval']
        exact hrun hw (S.machine_unrecorded hm hn hn')
      have haligned := S.program_aligned h
      generalize t.core = p at ih haligned
      generalize t'.core = p' at haligned
      cases haligned with
      | fail e =>
          exact .fail e
      | give hv =>
          exact .pure fun w₁ _ => hv w₁
      | look hfound =>
          exact .lookupName hfound
      | @sequence parts parts' hparts =>
          refine evalEach ?_ .unit
          have hmem := List.forall₂_iff_zip.1 hparts
          refine List.forall₂_iff_zip.2 ⟨hmem.1, fun {c c'} hc w₁ hw => ?_⟩
          exact ih c (List.of_mem_zip hc).1 (S.later_trans hw₀ hw) c'
            (S.program_later hw (hmem.2 hc))
      | define hfunction hbinds =>
          refine .bind (.record _ _) fun w₁ _ _ hw _ => ?_
          refine .bind (.makeFunction (S.function_later hw hfunction))
            fun w₂ v v' hw' hv => ?_
          exact givesKin_bound hbinds (S.later_trans hw hw') hv
      | bind hvalue hbinds =>
          refine .bind (ih _ (by simp [Plan.parts]) hw₀ _ hvalue)
            fun w₁ v v' hw hv => ?_
          refine .bind (.record _ _) fun w₂ _ _ hw' _ => ?_
          exact givesKin_bound hbinds (S.later_trans hw hw') (hv.later hw')
      | operate hleft hright htable =>
          refine .bind (ih _ (by simp [Plan.parts]) hw₀ _ hleft)
            fun w₁ l l' hw hl => ?_
          have hw₁ := S.later_trans hw₀ hw
          have hright :=
            ih _ (by simp [Plan.parts]) hw₁ _ (S.program_later hw hright)
          refine .bind hright fun w₂ r r' hw' hr => ?_
          exact applyOperator hhost hcall (S.later_trans hw₁ hw') htable
            (hl.later hw') hr
      | apply hfunction hargument =>
          refine .bind (ih _ (by simp [Plan.parts]) hw₀ _ hfunction)
            fun w₁ f f' hw hf => ?_
          have hw₁ := S.later_trans hw₀ hw
          have hargument :=
            ih _ (by simp [Plan.parts]) hw₁ _ (S.program_later hw hargument)
          refine .bind hargument fun w₂ v v' hw' hv => ?_
          exact hcall (S.later_trans hw₁ hw') "apply" (hf.later hw') hv

end Evaluation

/-- Calling values that belong together gives the same error or values that
belong together. -/
theorem callValue
    {host : Host} {w₀ : S.World} (hhost : host.Discreet S.toKinship w₀) :
    ∀ n : Nat, S.CallsKin w₀ (callValue host n) (callValue host n)
  | 0 => by
      intro w callee callee' argument argument' _ tag _ _ w₁ m m' _ _
      exact .never
  | n + 1 => by
      have hcall := callValue hhost n
      intro w callee callee' argument argument' hw₀ tag hcallee hargument
      cases hcallee with
      | unit | number | text | foreign =>
          exact .fail _
      | builtin name hi hlength hreceived =>
          have hkin :=
            List.forall₂_iff_zip.2 ⟨hlength, fun {v v'} => hreceived v v'⟩
          exact .action hcall hw₀ (hhost.builtin hw₀ name hkin hargument)
      | @function i i' c c' hi hc =>
          intro w₁ m m' hw hm
          have hc := S.function_later hw hc
          have hargument := hargument.later hw
          have harity := S.arity_eq hc
          by_cases hlast : c.arity = 1
          · rw [callValue_last host n tag i argument m hlast,
              callValue_last host n tag i' argument' m' (harity ▸ hlast)]
            obtain ⟨w', hw', hm', hbody⟩ := S.function_enter hc hlast hm hargument
            have hw₁ := S.later_trans hw₀ (S.later_trans hw hw')
            have hnested := Parallel.nested (evalTree hhost hcall hw₁ _ _ hbody)
            exact (hnested.ends hm').since hw'
          · rw [callValue_stage host n tag i argument m hlast,
              callValue_stage host n tag i' argument' m' (harity ▸ hlast)]
            obtain ⟨w', hw', hm', hnext⟩ := S.function_receive hc hlast hm hargument
            have hmade := Parallel.makeFunction hnext
            exact (hmade.ends hm').since hw'

/-- The interpretations end with the same error or with values that belong
together, on machines that do. -/
inductive Outcomes (S : Simulation) (w : S.World) :
    Except InterpretError Value × Machine →
    Except InterpretError Value × Machine → Prop
  | error {w' : S.World} {m m' : Machine} (e : InterpretError) :
      S.later w w' → S.machine w' m m' → Outcomes S w (.error e, m) (.error e, m')
  | ok {w' : S.World} {m m' : Machine} {v v' : Value} :
      S.later w w' → S.machine w' m m' → v.Kin S.toKinship w' v' →
      Outcomes S w (.ok v, m) (.ok v', m')

/-- Interpretations that do nothing and give no value. -/
theorem Outcomes.refused
    {w : S.World} {m m' : Machine}
    (hm : S.machine w m m') (e : InterpretError) :
    S.Outcomes w (.error e, m) (.error e, m') :=
  .error e (S.later_refl w) hm

/-- Interpreting trees that belong together. -/
theorem runTree
    {host : Host} {w : S.World} (hhost : host.Discreet S.toKinship w)
    {m m' : Machine} (hm : S.machine w m m')
    {a a' : Site} {t t' : Tree} (h : S.program w a a' t t') :
    S.Outcomes w (runTree host a.table a.scope t m)
      (runTree host a'.table a'.scope t' m') := by
  have hcall := callValue hhost callAllowance
  have hends := (evalTree hhost hcall (S.later_refl w) t t' h).ends hm
  unfold Curried.runTree evaluate
  generalize Curried.evalTree host (Curried.callValue host callAllowance)
      a.table a.scope t m = o at hends
  generalize Curried.evalTree host (Curried.callValue host callAllowance)
      a'.table a'.scope t' m' = o' at hends
  cases hends with
  | never => exact .refused hm _
  | together hw hn hboth =>
      cases hboth with
      | error e => exact .error _ hw hn
      | ok hv => exact .ok hw hn hv

end Simulation

end Curried
