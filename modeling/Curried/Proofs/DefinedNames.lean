import Curried.Proofs.Renaming
import Curried.Proofs.SpareDepth
import Curried.Proofs.StaticNames

/-!
# Programs whose names are defined in time find them

What `StaticNames` proves of the reference evaluator holds of the interpreter,
on every machine and at every depth.

**From one machine to all.**  In the root scope of a machine with nothing else,
and outside of all calls, interpreting refines the reference evaluator.  Less
room for calls only refuses more of them.  On a machine with anything else in
its store, and in any scope that holds the same, the run is the same but for the
numbers of frames.

**Result.**  `defined_in_time_finds_names`: in a scope that is empty or holds
the prelude only, a program whose names are defined in time does not fail for
want of a name.
-/

namespace Curried

open Reference (Prepared)

/-- The frame has no parent and binds the given names only, each to the host
function of this name, which has been made before and has received nothing. -/
structure Frame.HoldsOnly (f : Frame) (names : List String) (made : Nat) :
    Prop where
  parent : f.parent = none
  builtin : ∀ x ∈ names, ∃ id < made, f.bindings[x]? = some (.builtin id x [])
  nothing : ∀ x ∉ names, f.bindings[x]? = none

/-- All that can be seen from the scope are the host functions of the given
names. -/
def Machine.HoldsOnly (m : Machine) (scope : Scope) (names : List String) : Prop :=
  ∃ f, m.store.frame? scope = some f ∧ f.HoldsOnly names m.made

/-- A scope that is empty holds the prelude only, once it has been installed. -/
theorem installPrelude_holdsOnly
    {m : Machine} {scope : Scope}
    (h : m.HoldsOnly scope []) :
    ∃ m', installPrelude scope m = some (.ok (), m') ∧
      m'.HoldsOnly scope preludeNames := by
  obtain ⟨f, hf, hholds⟩ := h
  have hframe :
      ((m.store.define scope "add" (.builtin m.made "add" [])).define scope
        "mul" (.builtin (m.made + 1) "mul" [])).frame? scope =
      some ⟨(f.bindings.insert "add" (.builtin m.made "add" [])).insert "mul"
        (.builtin (m.made + 1) "mul" []), f.parent⟩ := by
    simp [hf]
  refine ⟨_, rfl, _, hframe, hholds.parent, ?_, ?_⟩
  · intro x hx
    rcases List.mem_pair.1 hx with rfl | rfl
    · exact ⟨m.made, Nat.lt_succ_of_lt (Nat.lt_succ_self m.made),
        by rw [Std.TreeMap.getElem?_insert]; simp⟩
    · exact ⟨m.made + 1, Nat.lt_succ_self _, by simp⟩
  · intro x hx
    have hadd : "add" ≠ x := fun h => hx (h ▸ by decide)
    have hmul : "mul" ≠ x := fun h => hx (h ▸ by decide)
    simp [Std.TreeMap.getElem?_insert, hadd, hmul, hholds.nothing x]

/-- The interpretation gives a value, or an error of evaluation that is no
missing name. -/
inductive MissesNoName : Except InterpretError Value → Prop
  | ok (v : Value) : MissesNoName (.ok v)
  | failed {e : EvalError} : e.kind ≠ .name → MissesNoName (.error (.failed e))

theorem MissesNoName.of_outcomes
    {S : Simulation} {w : S.World} {p p' : Except InterpretError Value × Machine}
    (h : S.Outcomes w p p') (hp : MissesNoName p.1) :
    MissesNoName p'.1 := by
  cases h with
  | error e _ _ => exact hp
  | ok _ _ _ => exact .ok _

theorem Reference.getElem?_preludeGlobals
    (x : String) :
    preludeGlobals[x]? =
      if "mul" = x then some (.builtin .mul none)
        else if "add" = x then some (.builtin .add none) else none := by
  simp [preludeGlobals, Builtin.name, Std.TreeMap.getElem?_insert]

/-- The prelude defines its names, and its functions read none. -/
theorem Reference.prepared_prelude
    (ts : List Tree) :
    Prepared preludeNames ts preludeGlobals where
  defined := by
    intro x hx
    rw [Std.TreeMap.mem_iff_isSome_getElem?, getElem?_preludeGlobals]
    rcases List.mem_pair.1 hx with rfl | rfl <;> rfl
  covered := by
    intro _ x v hv
    rw [getElem?_preludeGlobals] at hv
    split at hv
    · cases hv
      exact .builtin _ _
    · split at hv
      · cases hv
        exact .builtin _ _
      · cases hv

/-- A frame that holds the prelude only binds what the globals with the prelude
stand for. -/
theorem Frame.HoldsOnly.represents_prelude
    {f : Frame} {made : Nat}
    (h : f.HoldsOnly preludeNames made) (s : Store) (x : String) :
    Option.Rel (Represents s) Reference.preludeGlobals[x]? f.bindings[x]? := by
  rw [Reference.getElem?_preludeGlobals]
  by_cases hmul : "mul" = x
  · subst hmul
    obtain ⟨id, -, hid⟩ := h.builtin "mul" (by decide)
    rw [hid]
    exact .some (.untouched .mul id)
  · by_cases hadd : "add" = x
    · subst hadd
      obtain ⟨id, -, hid⟩ := h.builtin "add" (by decide)
      rw [hid]
      exact .some (.untouched .add id)
    · have hx : x ∉ preludeNames :=
        fun hx => (List.mem_pair.1 hx).elim (hadd ·.symm) (hmul ·.symm)
      rw [h.nothing x hx, if_neg hmul, if_neg hadd]
      exact .none

/-- The reference evaluator has globals for what the frame holds. -/
theorem Frame.HoldsOnly.exists_globals
    {f : Frame} {names : List String} {made : Nat}
    (h : f.HoldsOnly names made) (hnames : names = [] ∨ names = preludeNames)
    (s : Store) (ts : List Tree) :
    ∃ globals : Reference.Globals,
      Prepared names ts globals ∧
      ∀ x : String, Option.Rel (Represents s) globals[x]? f.bindings[x]? := by
  rcases hnames with rfl | rfl
  · refine ⟨∅, ⟨by simp, by simp⟩, fun x => ?_⟩
    rw [h.nothing x List.not_mem_nil]
    simp
  · exact ⟨Reference.preludeGlobals, Reference.prepared_prelude ts,
      h.represents_prelude s⟩

/-- In the root, outside of all calls, by what the reference evaluator does. -/
theorem runTree_missesNoName_of_ready
    {source : String} {t : Tree} (hparse : parse source = .ok t)
    {m : Machine} {globals : Reference.Globals} (hm : Ready m globals)
    {known : List String} (hglobals : Prepared known t.children globals)
    (hdefined : definedInTime known t.children = true) :
    MissesNoName (runTree Host.standard Table.empty Scope.root t m).1 := by
  have houtcome := (runSource_refines hm source).1
  simp only [runSource, Reference.run, hparse] at houtcome
  obtain ⟨ts, rfl, hprogram⟩ := parse_eq_ok_iff.1 hparse
  have hfinds : ∀ e, (Reference.declareAll globals ts .unit).1 = .error e →
      e.kind ≠ .name := fun _ he =>
    Reference.declareAll_findsNames hprogram.isDeclaration hdefined hglobals he
  generalize (runTree Host.standard Table.empty Scope.root ⟨"declarations",
      source, ts⟩ m).1 = r at houtcome ⊢
  generalize (Reference.declareAll globals ts .unit).1 = r' at houtcome hfinds
  cases r with
  | ok v => exact .ok v
  | error e =>
      cases r' with
      | ok v' => cases houtcome
      | error e' =>
          cases houtcome
          exact .failed (hfinds e' rfl)

/-- Calls that are refused for want of room do not make a name be missed. -/
theorem MissesNoName.of_roomier
    {m m' : Machine} (hm : m.Roomier m') {table : Table} {scope : Scope} {t : Tree}
    (h : MissesNoName (runTree Host.standard table scope t m').1) :
    MissesNoName (runTree Host.standard table scope t m).1 := by
  have hroom := Spares.evaluate Host.standard_handsOn table scope t hm
  unfold runTree at h ⊢
  generalize evaluate Host.standard table scope t m = o,
      evaluate Host.standard table scope t m' = o' at hroom h
  cases hroom with
  | refused he => exact .failed (by simp [he])
  | never => cases h
  | @ended r n n' _ =>
      cases r with
      | ok v => exact .ok v
      | error e => exact h

/-- The first frame of a small store is the one of the given scope in a large
one, and frames that are added are added behind. -/
def Renaming.into (scope : Scope) (s : Store) (h : scope.index <
    s.frames.size) : Renaming where
  number := id
  frame
    | 0 => scope.index
    | i + 1 => s.frames.size + i
  number_injective := Function.injective_id
  frame_strictMono := by
    refine strictMono_nat_of_lt_succ fun i => ?_
    cases i with
    | zero => exact h
    | succ i => exact Nat.lt_succ_self _

/-- The machine with the frame alone in its store. -/
def Machine.only (m : Machine) (f : Frame) : Machine :=
  { m with store := ⟨#[f]⟩ }

theorem Machine.frame?_only
    {m : Machine} {f g : Frame} {scope : Scope}
    (h : (m.only f).store.frame? scope = some g) :
    scope = Scope.root ∧ g = f := by
  obtain ⟨i⟩ := scope
  cases i with
  | zero => exact ⟨rfl, (Option.some.inj h).symm⟩
  | succ i => cases h

/-- A machine continues what it does with the frame alone. -/
theorem Frame.HoldsOnly.renamed
    {m : Machine} {scope : Scope} {f : Frame} {names : List String}
    (hf : m.store.frame? scope = some f) (h : f.HoldsOnly names m.made)
    (hscope : scope.index < m.store.frames.size) :
    (m.only f).Renamed .exact (.into scope m.store hscope) ⟨m.made, 1⟩ m where
  store :=
    { frame := by
        intro scope' g hg
        obtain ⟨rfl, rfl⟩ := Machine.frame?_only hg
        refine ⟨g, hf, by rw [h.parent]; rfl, fun x => ?_⟩
        by_cases hx : x ∈ names
        · obtain ⟨id, hid, hbinding⟩ := h.builtin x hx
          rw [hbinding]
          exact .some (.builtin x ⟨hid, rfl⟩ rfl (by simp))
        · rw [h.nothing x hx]
          exact .none
      earlier := by
        intro scope' parent g hg hparent
        obtain ⟨-, rfl⟩ := Machine.frame?_only hg
        rw [h.parent] at hparent
        cases hparent
      next := by
        intro k
        rw [show (m.only f).store.frames.size + k = k + 1 from Nat.add_comm 1 k]
        rfl }
  extent := rfl
  fresh := fun _ => rfl
  depth := rfl

/-- **No missing names.**  Let a program be interpreted in a scope that is empty
or holds the prelude only.  If the expressions of the program read names that
are defined before, and its functions read their parameters and names that are
defined before the next expression, then it is not for want of a name that the
interpretation fails. -/
theorem defined_in_time_finds_names
    {source : String} {t : Tree} (hparse : parse source = .ok t)
    {m : Machine} {scope : Scope} {known : List String}
    (hscope : m.HoldsOnly scope known) (hknown : known = [] ∨ known = preludeNames)
    (hdefined : definedInTime known t.children = true) :
    MissesNoName (runSource Host.standard Table.empty scope source m).1 := by
  obtain ⟨f, hf, hholds⟩ := hscope
  have hindex : scope.index < m.store.frames.size :=
    (Array.getElem?_eq_some_iff.1 hf).1
  obtain ⟨globals, hglobals, hagrees⟩ :=
    hholds.exists_globals hknown (m.only f).store t.children
  have hready : Ready { m.only f with depth := 0 } globals :=
    ⟨rfl, f, rfl, hholds.parent, hagrees⟩
  have hroom : Machine.Roomier (m.only f) { m.only f with depth := 0 } :=
    ⟨rfl, rfl, rfl, Nat.zero_le _⟩
  have halone :=
    (runTree_missesNoName_of_ready hparse hready hglobals hdefined).of_roomier
      hroom
  have hprogram : Site.Renamed .exact (.into scope m.store hindex)
      ⟨m.made, 1⟩ ⟨.empty, Scope.root⟩ ⟨.empty, scope⟩ t t :=
    ⟨rfl, rfl, Nat.one_pos, rfl⟩
  have houtcomes :=
    Simulation.runTree (S := .renaming .exact _) (Host.standard_discreet _ _)
      (hholds.renamed hf hindex) hprogram
  rw [runSource, hparse]
  exact halone.of_outcomes houtcomes

/-- Functions that call each other, that are passed on, started and bound anew,
and behind them one that reads a name which is never defined. -/
def pingPong : String :=
  "ping n = pong (add n 1)\npong n = first n ping\nfirst a b = a\n" ++
    "twice f x = f (f x)\nstep = twice (add 1)\nping (step 2)\n" ++
    "step = mul 2\nstep 3\nlost x = nowhere x"

theorem pingPong_finds_names :
    ∃ t m, parse pingPong = .ok t ∧ definedInTime preludeNames t.children = true ∧
      installPrelude Scope.root Machine.withRoot = some (.ok (), m) ∧
      m.HoldsOnly Scope.root preludeNames ∧
      MissesNoName (runSource Host.standard Table.empty Scope.root pingPong
        m).1 := by
  have hroot : Machine.withRoot.HoldsOnly Scope.root [] :=
    ⟨⟨∅, none⟩, rfl, rfl, nofun, fun x _ => Std.TreeMap.getElem?_emptyc⟩
  obtain ⟨m, hinstall, hscope⟩ := installPrelude_holdsOnly hroot
  have hprogram : (parse pingPong).toOption.map (fun t =>
      definedInTime preludeNames t.children) = some true := by
    decide +kernel
  cases hparse : parse pingPong with
  | error e =>
      rw [hparse] at hprogram
      cases hprogram
  | ok t =>
      rw [hparse] at hprogram
      have hdefined : definedInTime preludeNames t.children = true :=
        Option.some.inj hprogram
      exact ⟨t, m, rfl, hdefined, hinstall, hscope,
        defined_in_time_finds_names hparse hscope (Or.inr rfl) hdefined⟩

end Curried
