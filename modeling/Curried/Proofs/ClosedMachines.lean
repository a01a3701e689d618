import Curried.Proofs.Moves
import Curried.Proofs.Renaming

/-!
# Machines that refer to nothing outside

**Closed machines.**  A value is known where its number, the numbers of the
values that it hands along and the scopes that they have captured have been
made, and where the functions among them have a parameter to wait for.  A
machine is closed if all values in its frames are known and all parents come
earlier.

**Shifts.**  A closed machine is renamed as every machine that has come from it
by making more: what is known keeps its number, and all that is yet to be made
is shifted.  It is also renamed as itself, so what renamed machines keep, closed
ones keep as well.

**Hosts.**  A host is `Sealed` from an extent on if it hands out only what is
known: what it was handed, what it has made, and what it may have kept from
earlier.  It is `Impartial` if it does the same with renamed values, whatever
the renaming, as long as all that was made before keeps its number.  Such a host
may compare values, and look at all of a function that the likeness keeps, but
the numbers of values and of frames tell it nothing.

**States.**  `Session.Emerges s` says that moves lead to `s`, each of them made
with some host that is sealed when it is made.

**Results.**
* `Machine.Closed.renamed`: the shift.
* `Session.Emerges.closed`: all machines that emerge are closed.
* `Session.Arises.emerges`: what arises with one sealed host emerges.
-/

namespace Curried

/-- All that the value refers to has been made. -/
inductive Value.Known (w : Extent) : Value → Prop
  | unit : Known w .unit
  | number (x : Float) : Known w (.number x)
  | text (s : String) : Known w (.text s)
  | function {i : Nat} {c : Closure} :
      i < w.made → c.Known w → Known w (.function i c)
  | builtin {i : Nat} {received : List Value} (name : String) :
      i < w.made → (∀ v ∈ received, Known w v) → Known w (.builtin i name received)
  | foreign {i : Nat} (parcel : Parcel) :
      i < w.made → Known w (.foreign i parcel)

/-- All that is bound refers to what has been made, and parents come earlier. -/
structure Machine.Closed (m : Machine) : Prop where
  value : ∀ ⦃scope : Scope⦄ ⦃f : Frame⦄ ⦃x : String⦄ ⦃v : Value⦄,
    m.store.frame? scope = some f → f.bindings[x]? = some v → v.Known m.extent
  earlier : ∀ ⦃scope parent : Scope⦄ ⦃f : Frame⦄,
    m.store.frame? scope = some f → f.parent = some parent →
      parent.index < scope.index

/-- What has been made up to `w` keeps its number. -/
structure Renaming.Fixes (ρ : Renaming) (w : Extent) : Prop where
  number : ∀ ⦃i : Nat⦄, i < w.made → ρ.number i = i
  scope : ∀ ⦃scope : Scope⦄, scope.index < w.frames → ρ.scope scope = scope

/-- Everything keeps its number. -/
def Renaming.refl : Renaming where
  number := id
  frame := id
  number_injective := Function.injective_id
  frame_strictMono := strictMono_id

/-- What has been made up to `w` keeps its number, and what comes after `w` is
numbered as what comes after `w'`. -/
def Renaming.shift (w w' : Extent) : Renaming where
  number := fun i => if i < w.made then i else i + (w'.made - w.made)
  frame := fun i => if i < w.frames then i else i + (w'.frames - w.frames)
  number_injective := by
    intro i j h
    dsimp only at h
    split at h <;> split at h <;> omega
  frame_strictMono := by
    intro i j h
    dsimp only
    split <;> split <;> omega

namespace Renaming

theorem refl_fixes (w : Extent) : refl.Fixes w :=
  ⟨fun _ _ => rfl, fun _ _ => rfl⟩

theorem shift_fixes (w w' : Extent) : (shift w w').Fixes w where
  number := fun _ hi => if_pos hi
  scope := fun _ hscope => congrArg Scope.mk (if_pos hscope)

theorem shift_number
    {w w' : Extent}
    (h : w ≤ w') (k : Nat) :
    (shift w w').number (w.made + k) = w'.made + k := by
  have hle := h.1
  refine (if_neg (by omega)).trans ?_
  omega

theorem shift_frame
    {w w' : Extent}
    (h : w ≤ w') (k : Nat) :
    (shift w w').frame (w.frames + k) = w'.frames + k := by
  have hle := h.2
  refine (if_neg (by omega)).trans ?_
  omega

end Renaming

variable {L : Likeness} {ρ : Renaming} {w w' : Extent} {v v' : Value}

namespace Value

theorem Known.later
    (h : v.Known w) (hw : w ≤ w') :
    v.Known w' := by
  induction h with
  | unit => exact .unit
  | number x => exact .number x
  | text s => exact .text s
  | function hi hc => exact .function (Nat.lt_of_lt_of_le hi hw.1) (hc.later hw)
  | builtin name hi _ ih => exact .builtin name (Nat.lt_of_lt_of_le hi hw.1) ih
  | foreign parcel hi => exact .foreign parcel (Nat.lt_of_lt_of_le hi hw.1)

/-- What is known belongs to itself, wherever the numbers and the functions do
that have been made. -/
theorem Known.kin
    {K : Kinship} {w₁ : K.World}
    (h : v.Known w)
    (hidentity : ∀ {i : Nat}, i < w.made → K.identity w₁ i i)
    (hfunction : ∀ {c : Closure}, c.Known w → K.function w₁ c c) :
    v.Kin K w₁ v := by
  induction h with
  | unit => exact .unit
  | number x => exact .number x
  | text s => exact .text s
  | function hi hc => exact .function (hidentity hi) (hfunction hc)
  | builtin name hi _ ih =>
      exact .ofReceived (hidentity hi) (List.forall₂_same.2 ih) name
  | foreign parcel hi => exact .foreign parcel (hidentity hi)

/-- What is known is renamed as itself. -/
theorem Known.renamed
    (h : v.Known w) (hρ : ρ.Fixes w) :
    v.Renamed L ρ w v :=
  h.kin (fun hi => ⟨hi, (hρ.number hi).symm⟩) fun hc =>
    ⟨rfl, rfl, rfl, L.refl _, (hρ.scope hc.scope).symm, rfl, hc⟩

/-- What is renamed is known. -/
theorem Renamed.known
    (h : v.Renamed L ρ w v') :
    v.Known w := by
  induction h with
  | unit => exact .unit
  | number x => exact .number x
  | text s => exact .text s
  | function hi hc => exact .function hi.1 hc.known
  | @builtin i i' received received' name hi hlength _ ih =>
      refine .builtin name hi.1 fun u hu => ?_
      obtain ⟨k, hk, rfl⟩ := List.mem_iff_getElem.1 hu
      refine ih _ (received'[k]) (List.mem_of_getElem? (i := k) ?_)
      rw [List.getElem?_zip_eq_some]
      exact ⟨List.getElem?_eq_getElem hk, List.getElem?_eq_getElem (hlength ▸ hk)⟩
  | foreign parcel hi => exact .foreign parcel hi.1

end Value

/-- A frame that refers to nothing but what is known is renamed as itself. -/
theorem Frame.renamed_self
    {f : Frame}
    (hvalue : ∀ ⦃x : String⦄ ⦃v : Value⦄, f.bindings[x]? = some v → v.Known w)
    (hparent : ∀ ⦃parent : Scope⦄, f.parent = some parent → parent.index < w.frames)
    (hρ : ρ.Fixes w) :
    f.Renamed L ρ w f where
  parent := by
    cases hp : f.parent with
    | none => rfl
    | some parent => rw [Option.map_some, hρ.scope (hparent hp)]
  bindings := by
    intro x
    cases hx : f.bindings[x]? with
    | none => exact .none
    | some v => exact .some ((hvalue hx).renamed hρ)

/-- The first of two renamed machines is closed. -/
theorem Machine.Renamed.closed
    {m m' : Machine}
    (h : m.Renamed L ρ w m') :
    m.Closed where
  value := by
    intro scope f x v hf hv
    obtain ⟨f', -, hrenamed⟩ := h.store.frame hf
    have hx := hrenamed.bindings x
    rw [hv] at hx
    rw [h.extent]
    generalize f'.bindings[x]? = o' at hx
    cases hx with
    | some hv => exact Value.Renamed.known hv
  earlier := h.store.earlier

namespace Machine.Closed

variable {m : Machine} (h : m.Closed)
include h

/-- A closed machine is renamed as every machine that has come from it by making
more. -/
theorem renamed
    {m' : Machine}
    (hstore : m.store.Extends m'.store) (hgrown : m.Grown m') :
    m.Renamed L (.shift m.extent m'.extent) m.extent m' where
  store := by
    have hfixes := Renaming.shift_fixes m.extent m'.extent
    have hindex : ∀ {scope : Scope} {f : Frame}, m.store.frame? scope = some f →
        scope.index < m.extent.frames :=
      fun hf => (Array.getElem?_eq_some_iff.1 hf).1
    refine ⟨?_, h.earlier, ?_⟩
    · intro scope f hf
      rw [hfixes.scope (hindex hf)]
      refine ⟨f, hstore hf,
        Frame.renamed_self (fun _ _ => h.value hf) (fun parent hp => ?_) hfixes⟩
      exact Nat.lt_trans (h.earlier hf hp) (hindex hf)
    · exact Renaming.shift_frame hgrown.extent
  extent := rfl
  fresh := Renaming.shift_number hgrown.extent
  depth := hgrown.depth.symm

theorem renamed_self : m.Renamed L .refl m.extent m where
  store := by
    refine ⟨fun scope f hf => ⟨f, hf, ?_⟩, h.earlier, fun _ => rfl⟩
    refine Frame.renamed_self (fun _ _ => h.value hf) (fun parent hp => ?_)
      (Renaming.refl_fixes _)
    exact Nat.lt_trans (h.earlier hf hp) (Array.getElem?_eq_some_iff.1 hf).1
  extent := rfl
  fresh := fun _ => rfl
  depth := rfl

theorem lookup
    {scope : Scope} {x : String}
    (hfound : m.store.lookup scope x = some v) :
    v.Known m.extent := by
  have hscope : scope.index < m.store.frames.size := by
    by_contra hscope
    have hnone : m.store.frame? scope = none :=
      Array.getElem?_eq_none (Nat.le_of_not_lt hscope)
    rw [Store.lookup, Store.lookupWithin, hnone] at hfound
    cases hfound
  have hrel := (h.renamed_self (L := .exact)).store.lookup hscope x
  rw [hfound] at hrel
  generalize m.store.lookup _ x = o' at hrel
  cases hrel with
  | some hv => exact hv.known

/-- A frame has been added. -/
theorem push
    {f : Frame}
    (hvalue : ∀ ⦃x : String⦄ ⦃v : Value⦄, f.bindings[x]? = some v →
      v.Known m.extent)
    (hparent : ∀ ⦃parent : Scope⦄, f.parent = some parent →
      parent.index < m.store.frames.size) :
    Machine.Closed { m with store := m.store.push f } := by
  have hf :=
    Frame.renamed_self (L := .exact) hvalue hparent
      (Renaming.refl_fixes m.extent)
  exact (h.renamed_self.push hf hparent).closed

/-- How many bodies are under evaluation does not matter. -/
theorem atDepth (depth : Nat) : Machine.Closed { m with depth := depth } :=
  ⟨h.value, h.earlier⟩

end Machine.Closed

/-- Machines that are closed, and values that are known. -/
def Order.closed : Order where
  machine := Machine.Closed
  value := Value.Known

/-- What renamed machines keep, closed ones keep. -/
theorem leaves_of_givesKin
    {x x' : EvalM Value} {m m' : Machine}
    (hx : (Simulation.renaming L ρ).GivesKin w x x') (hm : m.Renamed L ρ w m') :
    Order.closed.Leaves (x m) := by
  intro r n hrun
  have hends := hx.ends hm
  rw [hrun] at hends
  generalize x' m' = o' at hends
  cases hends with
  | together _ hn hboth =>
      refine ⟨Machine.Renamed.closed hn, ?_⟩
      rintro v rfl
      cases hboth with
      | ok hv => exact (Machine.Renamed.extent hn) ▸ Value.Renamed.known hv

namespace Host

/-- From the extent `w` on, the host hands out only what is known. -/
def Sealed (host : Host) (w : Extent) : Prop :=
  host.Discreet (.renaming .exact .refl) w

/-- From the extent `w` on, the host does the same with renamed values, if the
renaming keeps all that has been made up to `w`. -/
def Impartial (host : Host) (L : Likeness) (w : Extent) : Prop :=
  ∀ ρ : Renaming, ρ.Fixes w → host.Discreet (.renaming L ρ) w

namespace Impartial

variable {host : Host}

/-- A renaming that keeps more is one of those that keep less. -/
theorem after
    (h : host.Impartial L w) (hw : w ≤ w') :
    host.Impartial L w' := by
  intro ρ hρ
  have hfixes : ρ.Fixes w :=
    ⟨fun _ hi => hρ.number (Nat.lt_of_lt_of_le hi hw.1),
      fun _ hscope => hρ.scope (Nat.lt_of_lt_of_le hscope hw.2)⟩
  exact (h ρ hfixes).after hw

theorem isSealed
    (h : host.Impartial .exact w) :
    host.Sealed w :=
  h .refl (Renaming.refl_fixes w)

end Impartial

theorem standard_impartial
    (L : Likeness) (w : Extent) :
    Host.standard.Impartial L w :=
  fun ρ _ => Host.standard_discreet (.renaming L ρ) w

theorem standard_sealed (w : Extent) : Host.standard.Sealed w :=
  (standard_impartial .exact w).isSealed

end Host

/-- Where the host hands out only what is known, sessions are closed. -/
def Custody.closed
    {host : Host} {w₀ : Extent} (hhost : host.Sealed w₀) :
    Custody host w₀ where
  toOrder := .closed
  value_later := fun hw h => h.later hw
  value_unit := fun _ => .unit
  value_number := fun _ => .number
  value_text := fun _ => .text
  value_builtin := fun hi name => .builtin name hi (by simp)
  value_foreign := fun hi parcel => .foreign parcel hi
  value_captured := by
    intro w i c h
    cases h with
    | function _ hc => exact hc.scope
  machine_made := by
    intro m h
    refine ⟨fun _ _ _ _ hf hv => ?_, h.earlier⟩
    exact (h.value hf hv).later ⟨Nat.le_succ _, Nat.le_refl _⟩
  machine_log := fun h _ => ⟨h.value, h.earlier⟩
  machine_pushRoot := fun h => h.push (by simp) nofun
  machine_pushChild := by
    intro m scope v h hscope hv x
    refine h.push ?_ ?_
    · intro y u hu
      rcases eq_or_getElem?_of_insert hu with rfl | hu
      · exact hv
      · simp at hu
    · rintro parent ⟨⟩
      exact hscope
  machine_define := by
    intro m v h hv scope x
    have hv' := hv.renamed (L := .exact) (Renaming.refl_fixes _)
    exact (h.renamed_self.define hv' scope x).closed
  machine_clear :=
    fun h scope => ((h.renamed_self (L := .exact)).clear scope).closed
  machine_lookup := fun h hfound => h.lookup hfound
  evaluate := by
    intro m scope hw h hscope table t
    have hcall := (Simulation.renaming .exact .refl).callValue hhost callAllowance
    have hprogram : Site.Renamed .exact .refl m.extent
        ⟨table, scope⟩ ⟨table, scope⟩ t t :=
      ⟨rfl, rfl, hscope, rfl⟩
    have hgives := Simulation.evalTree (S := .renaming .exact .refl) hhost
      hcall hw t t hprogram
    exact leaves_of_givesKin hgives h.renamed_self
  call := by
    intro m callee argument hw h hcallee hargument
    have hfixes := Renaming.refl_fixes m.extent
    have hcall := (Simulation.renaming .exact .refl).callValue hhost callAllowance
    have hgives :=
      hcall hw "apply" (hcallee.renamed hfixes) (hargument.renamed hfixes)
    exact leaves_of_givesKin hgives h.renamed_self
  operator := by
    intro m left right hw h hleft hright name symbol
    have hfixes := Renaming.refl_fixes m.extent
    have hcall := (Simulation.renaming .exact .refl).callValue hhost callAllowance
    have haction :=
      hhost.operator hw name symbol (hleft.renamed hfixes)
        (hright.renamed hfixes)
    exact leaves_of_givesKin (.action hcall hw haction) h.renamed_self

namespace Session

/-- Moves lead to the state, each with some host that hands out only what is
known by then. -/
inductive Emerges : Session → Prop
  | initial : Emerges initial
  | move {s : Session} (host : Host) (x : Move) :
      Emerges s → host.Sealed s.machine.extent → Emerges (s.move host x).2

/-- All machines that emerge are closed. -/
theorem Emerges.closed
    {s : Session} (h : s.Emerges) :
    s.machine.Closed := by
  have hall : s.InOrder .closed := by
    induction h with
    | initial =>
        have hempty : Machine.initial.Closed :=
          ⟨by simp [Machine.initial, Store.empty, Store.frame?],
            by simp [Machine.initial, Store.empty, Store.frame?]⟩
        exact initial_inOrder (hempty.push (by simp) nofun)
    | move host x _ hhost ih =>
        exact InOrder.move (C := .closed hhost) ih (le_refl _) x
  exact hall.machine

/-- What arises with one host that hands out only what is known emerges. -/
theorem Arises.emerges
    {host : Host} (hhost : host.Sealed ⟨0, 0⟩)
    {s : Session} (h : s.Arises host) :
    s.Emerges := by
  induction h with
  | initial => exact .initial
  | move x _ ih =>
      exact .move host x ih
        (Host.Discreet.after hhost ⟨Nat.zero_le _, Nat.zero_le _⟩)

end Session

end Curried
