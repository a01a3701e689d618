import Curried.Host.Standard
import Mathlib.Data.List.Forall2

/-!
# Values of two runs

Two runs that do the same need not hold the same values: functions may have
other bodies, other tables and other scopes in one than in the other, and what
is made may get other numbers.

**Kinship.**  A `Kinship` says which numbers and which functions of the two runs
belong together.  Functions that do have the same name and wait for equally many
arguments, and numbers are equal on one side exactly if they are on the other.
What belongs together may become more as the runs go on, so all this is said of
a `World`, and what is so in one world is so in all later ones.

**Hosts.**  What a host sees of a function must not tell the two runs apart.
`Host.Discreet` says this for one kinship, from one world on: handed values of
one run, the host does what it does when handed the values of the other that
they belong to.  Which functions belong together is up to the kinship, so the
more it asks of them, the more the host may see: their type and display, and
which of them are the same, in any case; their parameters and bodies where these
are equal.  A host may keep functions of its own, if they belong to themselves
in that world.

**Result.**  `Host.standard_discreet`: the standard host is discreet for every
kinship.
-/

namespace Curried

/-- Which numbers and which functions of two runs belong together. -/
structure Kinship where
  World : Type
  later : World → World → Prop
  identity : World → Nat → Nat → Prop
  function : World → Closure → Closure → Prop
  later_refl : ∀ w, later w w
  later_trans : ∀ {w w' w''}, later w w' → later w' w'' → later w w''
  identity_later : ∀ {w w' i i'}, later w w' → identity w i i' → identity w' i i'
  function_later : ∀ {w w' c c'}, later w w' → function w c c' → function w' c c'
  identity_iff : ∀ {w i i' j j'}, identity w i i' → identity w j j' →
    (i = j ↔ i' = j')
  name_eq : ∀ {w c c'}, function w c c' → c.name = c'.name
  arity_eq : ∀ {w c c'}, function w c c' → c.arity = c'.arity

variable {K : Kinship}

/-- The values belong together. -/
inductive Value.Kin (K : Kinship) (w : K.World) : Value → Value → Prop
  | unit : Kin K w .unit .unit
  | number (x : Float) : Kin K w (.number x) (.number x)
  | text (s : String) : Kin K w (.text s) (.text s)
  | function {i i' : Nat} {c c' : Closure} :
      K.identity w i i' → K.function w c c' →
      Kin K w (.function i c) (.function i' c')
  | builtin {i i' : Nat} {received received' : List Value} (name : String) :
      K.identity w i i' → received.length = received'.length →
      (∀ v v', (v, v') ∈ received.zip received' → Kin K w v v') →
      Kin K w (.builtin i name received) (.builtin i' name received')
  | foreign {i i' : Nat} (parcel : Parcel) :
      K.identity w i i' → Kin K w (.foreign i parcel) (.foreign i' parcel)

/-- The values belong together one by one. -/
abbrev ValuesKin (K : Kinship) (w : K.World) : List Value → List Value → Prop :=
  List.Forall₂ (Value.Kin K w)

namespace Value.Kin

variable {w w' : K.World} {u u' v v' : Value}

/-- Values belong together wherever their numbers and their functions do. -/
theorem imp
    {K' : Kinship} {w₁ : K'.World}
    (h : v.Kin K w v')
    (hidentity : ∀ {i i' : Nat}, K.identity w i i' → K'.identity w₁ i i')
    (hfunction : ∀ {c c' : Closure}, K.function w c c' → K'.function w₁ c c') :
    v.Kin K' w₁ v' := by
  induction h with
  | unit => exact .unit
  | number x => exact .number x
  | text s => exact .text s
  | function hi hc => exact .function (hidentity hi) (hfunction hc)
  | builtin name hi hlength _ ih => exact .builtin name (hidentity hi) hlength ih
  | foreign parcel hi => exact .foreign parcel (hidentity hi)

theorem later
    (h : v.Kin K w v') (hw : K.later w w') :
    v.Kin K w' v' :=
  h.imp (K.identity_later hw) (K.function_later hw)

theorem ofReceived
    {i i' : Nat} {received received' : List Value}
    (hi : K.identity w i i') (h : ValuesKin K w received received')
    (name : String) :
    Kin K w (.builtin i name received) (.builtin i' name received') := by
  obtain ⟨hlength, hzip⟩ := List.forall₂_iff_zip.1 h
  exact .builtin name hi hlength fun _ _ => hzip

theorem typeName_eq
    (h : v.Kin K w v') :
    v.typeName = v'.typeName := by
  cases h <;> rfl

theorem pattern?_eq
    (h : v.Kin K w v') :
    v.pattern? = v'.pattern? := by
  cases h <;> rfl

theorem display_eq
    (h : v.Kin K w v') :
    v.display = v'.display := by
  cases h with
  | @function _ _ c c' _ hc =>
      change "<function " ++ c.name ++ "/" ++ toString c.arity ++ ">" = _
      rw [K.name_eq hc, K.arity_eq hc]
      rfl
  | _ => rfl

/-- Comparing values gives the same on both sides. -/
theorem same_eq
    (hu : u.Kin K w u') (hv : v.Kin K w v') :
    u.same v = u'.same v' := by
  have hnumbers : ∀ {i i' j j' : Nat}, K.identity w i i' → K.identity w j j' →
      (i == j) = (i' == j') := by
    intro i i' j j' hi hj
    rw [Bool.eq_iff_iff, beq_iff_eq, beq_iff_eq]
    exact K.identity_iff hi hj
  cases hu with
  | function hi _ =>
      cases hv with
      | function hj _ => exact hnumbers hi hj
      | _ => rfl
  | builtin _ hi _ _ =>
      cases hv with
      | builtin _ hj _ _ => exact hnumbers hi hj
      | _ => rfl
  | foreign _ hi =>
      cases hv with
      | foreign _ hj => exact hnumbers hi hj
      | _ => rfl
  | _ => cases hv <;> rfl

end Value.Kin

theorem ValuesKin.later
    {w w' : K.World} {vs vs' : List Value}
    (h : ValuesKin K w vs vs') (hw : K.later w w') :
    ValuesKin K w' vs vs' :=
  h.imp fun _ _ hv => hv.later hw

/-- The outcomes are the same error, or values of which `V` holds. -/
inductive Both {α : Type} (V : α → α → Prop) :
    Except EvalError α → Except EvalError α → Prop
  | error (e : EvalError) : Both V (.error e) (.error e)
  | ok {a a' : α} : V a a' → Both V (.ok a) (.ok a')

theorem Both.imp
    {α : Type} {V W : α → α → Prop} {r r' : Except EvalError α}
    (h : Both V r r') (hVW : ∀ a a', V a a' → W a a') :
    Both W r r' := by
  cases h with
  | error e => exact .error e
  | ok ha => exact .ok (hVW _ _ ha)

/-- Operators of the language do the same with values that belong together. -/
theorem Operator.combine_kin
    {w : K.World} {left left' right right' : Value}
    (hleft : left.Kin K w left') (hright : right.Kin K w right') (o : Operator) :
    Both (Value.Kin K w) (o.combine left right) (o.combine left' right') := by
  rw [Operator.combine.eq_def o left right]
  split
  · cases hleft; cases hright
    exact .ok (.number _)
  · cases hleft; cases hright
    exact .ok (.text _)
  · cases hleft; cases hright
    exact .ok (.text _)
  · cases hleft; cases hright
    exact .ok (.text _)
  · cases hleft; cases hright
    exact .ok (.number _)
  · cases hleft; cases hright
    exact .ok (.number _)
  · cases hleft; cases hright
    exact .ok (.number _)
  · -- numbers and texts belong only to themselves, so no other case applies to
    -- the values of the second run either
    have hoperands : o.combine left' right' =
        .error (.operands o.symbol left'.typeName right'.typeName) := by
      unfold Operator.combine
      split <;> first | rfl | (cases hleft; cases hright; simp_all)
    rw [hoperands, hleft.typeName_eq, hright.typeName_eq]
    exact .error _

/-- The host asks for values that belong together, but for their numbers. -/
inductive Blueprint.Kin (K : Kinship) (w : K.World) : Blueprint → Blueprint → Prop
  | builtin {received received' : List Value} (name : String) :
      ValuesKin K w received received' →
      Kin K w (.builtin name received) (.builtin name received')
  | foreign (parcel : Parcel) : Kin K w (.foreign parcel) (.foreign parcel)

theorem Blueprint.Kin.value
    {w w' : K.World} {b b' : Blueprint} {i i' : Nat}
    (h : b.Kin K w b') (hw : K.later w w') (hi : K.identity w' i i') :
    (b.value i).Kin K w' (b'.value i') := by
  cases h with
  | builtin name hreceived => exact .ofReceived hi (hreceived.later hw) name
  | foreign parcel => exact .foreign parcel hi

/-- The host functions do the same with values that belong together, and go on
to do so with what their calls give. -/
inductive Action.Kin (K : Kinship) : K.World → Action → Action → Prop
  | give {w : K.World} {v v' : Value} :
      v.Kin K w v' → Kin K w (.give v) (.give v')
  | fail {w : K.World} (e : EvalError) :
      Kin K w (.fail e) (.fail e)
  | call {w : K.World} {callee callee' argument argument' : Value}
      {next next' : Except EvalError Value → Action} :
      callee.Kin K w callee' → argument.Kin K w argument' →
      (∀ w' r r', K.later w w' → Both (Value.Kin K w') r r' →
        Kin K w' (next r) (next' r')) →
      Kin K w (.call callee argument next) (.call callee' argument' next')
  | write {w : K.World} {next next' : Action} (line : String) :
      Kin K w next next' → Kin K w (.write line next) (.write line next')
  | make {w : K.World} {b b' : Blueprint} {next next' : Value → Action} :
      b.Kin K w b' →
      (∀ w' i i', K.later w w' → K.identity w' i i' →
        Kin K w' (next (b.value i)) (next' (b'.value i'))) →
      Kin K w (.make b next) (.make b' next')

/-- From the world `w₀` on, the host does the same with values that belong
together. -/
structure Host.Discreet (host : Host) (K : Kinship) (w₀ : K.World) : Prop where
  builtin : ∀ {w : K.World}, K.later w₀ w →
    ∀ (name : String) {received received' : List Value}
      {argument argument' : Value},
      ValuesKin K w received received' → argument.Kin K w argument' →
      Action.Kin K w (host.builtin name received argument)
        (host.builtin name received' argument')
  operator : ∀ {w : K.World}, K.later w₀ w → ∀ (name symbol : String)
    {left left' right right' : Value},
    left.Kin K w left' → right.Kin K w right' →
    Action.Kin K w (host.operator name symbol left right)
      (host.operator name symbol left' right')

theorem Host.Discreet.after
    {host : Host} {w₀ w : K.World}
    (h : host.Discreet K w₀) (hw : K.later w₀ w) :
    host.Discreet K w where
  builtin := fun hw' => h.builtin (K.later_trans hw hw')
  operator := fun hw' => h.operator (K.later_trans hw hw')

namespace Action.Kin

variable {w : K.World}

/-- Going on with the value of a call. -/
theorem andThenCall
    {callee callee' argument argument' : Value} {next next' : Value → Action}
    (hcallee : callee.Kin K w callee') (hargument : argument.Kin K w argument')
    (hnext : ∀ w' v v', K.later w w' → v.Kin K w' v' →
      Action.Kin K w' (next v) (next' v')) :
    Action.Kin K w (.andThenCall callee argument next)
      (.andThenCall callee' argument' next') := by
  refine .call hcallee hargument ?_
  intro w' r r' hw hr
  cases hr with
  | error e => exact .fail e
  | ok hv => exact hnext w' _ _ hw hv

/-- Making a value and giving it. -/
theorem makeGive
    {b b' : Blueprint}
    (h : b.Kin K w b') :
    Action.Kin K w (.make b .give) (.make b' .give) :=
  .make h fun _ _ _ hw hi => .give (h.value hw hi)

end Action.Kin

namespace Host.Standard

variable {w : K.World} {left left' right right' argument argument' : Value}
  {received received' : List Value}

theorem arithmetic_kin
    (hleft : left.Kin K w left') (hright : right.Kin K w right')
    (name : String) (f : Float → Float → Float) :
    Action.Kin K w (arithmetic name f left right)
      (arithmetic name f left' right') := by
  unfold arithmetic
  rw [hleft.typeName_eq, hright.typeName_eq]
  cases hleft with
  | number x =>
      cases hright with
      | number y => exact .give (.number _)
      | _ => exact .fail _
  | _ => exact .fail _

theorem combinePatterns_kin
    (hleft : left.Kin K w left') (hright : right.Kin K w right')
    (f : List String → List String → List String) :
    Action.Kin K w (combinePatterns f left right)
      (combinePatterns f left' right') := by
  have hfail : ∀ {v v' : Value}, v.Kin K w v' →
      Action.Kin K w (combinePatterns.notPattern v)
        (combinePatterns.notPattern v') := by
    intro v v' hv
    rw [combinePatterns.notPattern, combinePatterns.notPattern, hv.typeName_eq]
    exact .fail _
  unfold combinePatterns
  rw [hleft.pattern?_eq, hright.pattern?_eq]
  split
  · exact .makeGive (.foreign _)
  · exact hfail hright
  · exact hfail hleft

theorem operator_kin
    (hleft : left.Kin K w left') (hright : right.Kin K w right')
    (name symbol : String) :
    Action.Kin K w (operator name symbol left right)
      (operator name symbol left' right') := by
  unfold operator
  rw [hleft.display_eq, hright.display_eq, hleft.typeName_eq,
    hright.typeName_eq, hleft.same_eq hright]
  split
  · exact .give hleft
  · exact .give hright
  · exact .give (.text _)
  · exact .give (.text _)
  · exact .andThenCall hright hleft fun _ _ _ _ hv => .give hv
  · exact .andThenCall hleft hright fun _ _ _ _ hv => .give hv
  · exact .give (.number _)
  · exact .fail _
  · exact combinePatterns_kin hleft hright _
  · exact combinePatterns_kin hleft hright _
  · exact .give .unit

theorem wait_kin
    (hreceived : ValuesKin K w received received')
    (hargument : argument.Kin K w argument') (name : String) :
    Action.Kin K w (wait name received argument) (wait name received' argument') :=
  .makeGive (.builtin name (List.rel_append hreceived (.cons hargument .nil)))

theorem builtin_kin
    (hreceived : ValuesKin K w received received')
    (hargument : argument.Kin K w argument') (name : String) :
    Action.Kin K w (builtin name received argument)
      (builtin name received' argument') := by
  unfold builtin
  split
  · cases hreceived with
    | cons ha hnone =>
        cases hnone
        exact arithmetic_kin ha hargument _ _
  · cases hreceived with
    | cons ha hnone =>
        cases hnone
        exact arithmetic_kin ha hargument _ _
  · exact .give hargument
  · rw [hargument.display_eq]
    exact .write _ (.give hargument)
  · rw [hargument.typeName_eq]
    exact .give (.text _)
  · exact .give .unit
  · rw [hargument.display_eq]
    exact .fail _
  · cases hargument with
    | text x => exact .makeGive (.foreign _)
    | _ => exact .fail _
  · cases hreceived with
    | cons ha hnone =>
        cases hnone
        exact .give ha
  · cases hreceived with
    | cons ha hnone =>
        cases hnone
        rw [hargument.display_eq, ha.display_eq]
        exact .give (.text _)
  · cases hreceived with
    | cons hf hnone =>
        cases hnone
        refine .andThenCall hf hargument fun w' v v' hw hv => ?_
        exact .andThenCall (hf.later hw) hv fun _ _ _ _ hv' => .give hv'
  · cases hreceived with
    | cons hn hrest =>
        cases hrest with
        | cons hf hnone =>
            cases hnone
            refine .give ?_
            rw [hn.same_eq (.number 0)]
            split
            · exact hf
            · exact hargument
  · -- which case applies depends on how many arguments have been received, and
    -- both sides have received equally many
    have hwait : builtin name received' argument' =
        wait name received' argument' := by
      unfold builtin
      split <;> simp_all [List.forall₂_cons_right_iff]
    change Action.Kin K w _ (builtin name received' argument')
    rw [hwait]
    exact wait_kin hreceived hargument name

end Host.Standard

theorem Host.standard_discreet
    (K : Kinship) (w : K.World) :
    Host.standard.Discreet K w where
  builtin := fun _ name _ _ _ _ hreceived hargument =>
    Host.Standard.builtin_kin hreceived hargument name
  operator := fun _ name symbol _ _ _ _ hleft hright =>
    Host.Standard.operator_kin hleft hright name symbol

end Curried
