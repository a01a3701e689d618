import Curried.Proofs.Extent
import Curried.Proofs.StoreGrowth
import Curried.Session

/-!
# What a session keeps in order

A step of a session puts scopes and values from one place into another, and now
and then it evaluates a tree, calls a value or has an operator of the host
carried out.

**Order.**  An `Order` says which machines are in order, and which values may be
about on a machine of a given extent.  `Session.InOrder` asks this of the
machine and of all values that a session has named, and of the scopes that it
has named that they have a frame.

**Custody.**  `Custody host w₀` is an order with one law for each thing that a
step does to a machine.  Of the host it asks that it keeps the order where at
least `w₀` has been made, for it may have values of its own that are not about
before.

**Result.**  `Custody.step`: every step keeps a session in order.
-/

namespace Curried

/-- Which machines are in order, and which values may be about where so much has
been made. -/
structure Order where
  machine : Machine → Prop
  value : Extent → Value → Prop

namespace Order

variable (O : Order)

/-- If the run has ended, it has left a machine in order, and what it has given
may be about there. -/
def Leaves (o : Option (Except EvalError Value × Machine)) : Prop :=
  ∀ ⦃r : Except EvalError Value⦄ ⦃m : Machine⦄, o = some (r, m) →
    O.machine m ∧ ∀ v, r = .ok v → O.value m.extent v

/-- What an interpretation that was begun on a machine of extent `w` gives and
leaves behind is in order. -/
structure Covers (w : Extent) (result : Except InterpretError Value × Machine) :
    Prop where
  extent : w ≤ result.2.extent
  machine : O.machine result.2
  value : ∀ {v : Value}, result.1 = .ok v → O.value result.2.extent v

/-- An interpretation that changes nothing and gives no value. -/
theorem Covers.refused
    {O : Order} {m : Machine}
    (hm : O.machine m) (e : InterpretError) :
    O.Covers m.extent (.error e, m) :=
  ⟨le_refl _, hm, nofun⟩

end Order

/-- An order that is kept by whatever a step of a session does, once `w₀` has
been made. -/
structure Custody (host : Host) (w₀ : Extent) extends Order where
  value_later : ∀ {w w' v}, w ≤ w' → value w v → value w' v
  value_unit : ∀ w, value w .unit
  value_number : ∀ w x, value w (.number x)
  value_text : ∀ w s, value w (.text s)
  value_builtin : ∀ {w i}, i < w.made → ∀ name, value w (.builtin i name [])
  value_foreign : ∀ {w i}, i < w.made → ∀ parcel, value w (.foreign i parcel)
  value_captured : ∀ {w i c}, value w (.function i c) → c.scope.index < w.frames
  machine_made : ∀ {m}, machine m → machine { m with made := m.made + 1 }
  machine_log : ∀ {m}, machine m → ∀ log, machine { m with log := log }
  machine_pushRoot : ∀ {m}, machine m → machine { m with store := m.store.pushRoot }
  machine_pushChild : ∀ {m scope v}, machine m →
    scope.index < m.store.frames.size → value m.extent v →
    ∀ x, machine { m with store := m.store.pushChild scope x v }
  machine_define : ∀ {m v}, machine m → value m.extent v →
    ∀ scope x, machine { m with store := m.store.define scope x v }
  machine_clear : ∀ {m}, machine m →
    ∀ scope, machine { m with store := m.store.clear scope }
  machine_lookup : ∀ {m scope x v}, machine m →
    m.store.lookup scope x = some v → value m.extent v
  evaluate : ∀ {m scope}, w₀ ≤ m.extent → machine m →
    scope.index < m.store.frames.size →
    ∀ table t, toOrder.Leaves (evaluate host table scope t m)
  call : ∀ {m callee argument}, w₀ ≤ m.extent → machine m →
    value m.extent callee → value m.extent argument →
    toOrder.Leaves (call host callee argument m)
  operator : ∀ {m left right}, w₀ ≤ m.extent → machine m →
    value m.extent left → value m.extent right → ∀ name symbol,
    toOrder.Leaves
      ((host.operator name symbol left right).run
        (callValue host callAllowance) m)

namespace Session

/-- The machine is in order, the scopes that are named have a frame, and the
values that are named may be about. -/
structure InOrder (O : Order) (s : Session) : Prop where
  machine : O.machine s.machine
  scopes : ∀ {name : String} {scope : Scope}, s.scopes[name]? = some scope →
    scope.index < s.machine.store.frames.size
  values : ∀ {name : String} {v : Value}, s.values[name]? = some v →
    O.value s.machine.extent v

theorem initial_inOrder
    {O : Order}
    (h : O.machine .withRoot) :
    initial.InOrder O where
  machine := h
  scopes := by
    intro name scope hscope
    rcases eq_or_getElem?_of_insert hscope with rfl | hscope
    · decide
    · simp at hscope
  values := by simp [initial]

end Session

namespace Custody

variable {host : Host} {w₀ : Extent} (C : Custody host w₀)

section Runs

variable {m : Machine} (hw : w₀ ≤ m.extent) (hm : C.machine m)
  {scope : Scope} (hscope : scope.index < m.store.frames.size) (table : Table)
include hw hm hscope

theorem runTree (t : Tree) : C.Covers m.extent (runTree host table scope t m) := by
  have hleaves := C.evaluate hw hm hscope table t
  have hgrown := evalTree_grows host callAllowance table scope t (m := m)
  unfold Curried.runTree
  split
  · exact .refused hm _
  · rename_i e m' h
    exact ⟨(hgrown h).extent, (hleaves h).1, nofun⟩
  · rename_i v m' h
    refine ⟨(hgrown h).extent, (hleaves h).1, ?_⟩
    rintro _ ⟨⟩
    exact (hleaves h).2 v rfl

theorem runSource
    (source : String) :
    C.Covers m.extent (runSource host table scope source m) := by
  unfold Curried.runSource
  split
  · exact .refused hm _
  · exact C.runTree hw hm hscope table _

theorem runJson
    (json : String) :
    C.Covers m.extent (runJson host table scope json m) := by
  unfold Curried.runJson
  split
  · exact .refused hm _
  · exact C.runTree hw hm hscope table _

end Runs

section Parts

variable {C} {s : Session} (hs : s.InOrder C.toOrder)
include hs

/-- The machine has gone on. -/
theorem proceed
    {m : Machine}
    (hextent : s.machine.extent ≤ m.extent) (hm : C.machine m) :
    { s with machine := m }.InOrder C.toOrder where
  machine := hm
  scopes := fun h => Nat.lt_of_lt_of_le (hs.scopes h) hextent.2
  values := fun h => C.value_later hextent (hs.values h)

theorem keep
    {v : Value}
    (hv : C.value s.machine.extent v) (dest : Option String) :
    (s.keep dest v).InOrder C.toOrder := by
  cases dest with
  | none => exact hs
  | some name =>
      refine ⟨hs.machine, hs.scopes, ?_⟩
      intro other w hw
      rcases eq_or_getElem?_of_insert hw with rfl | hw
      · exact hv
      · exact hs.values hw

theorem nameScope
    {scope : Scope}
    (hscope : scope.index < s.machine.store.frames.size) (name : String) :
    (s.nameScope name scope).InOrder C.toOrder := by
  refine ⟨hs.machine, ?_, hs.values⟩
  intro other scope' h
  rcases eq_or_getElem?_of_insert h with rfl | h
  · exact hscope
  · exact hs.scopes h

theorem withScope
    {f : Scope → Answer × Session}
    (hf : ∀ scope : Scope, scope.index < s.machine.store.frames.size →
      (f scope).2.InOrder C.toOrder)
    (name : String) :
    (s.withScope name f).2.InOrder C.toOrder := by
  unfold Session.withScope
  split
  · exact hs
  · rename_i scope h
    exact hf scope (hs.scopes h)

theorem withTable
    {f : Table → Answer × Session}
    (hf : ∀ t, (f t).2.InOrder C.toOrder) (name : String) :
    (s.withTable name f).2.InOrder C.toOrder := by
  unfold Session.withTable
  split
  · exact hs
  · exact hf _

/-- Making a value leaves the store alone. -/
theorem withValue
    {f : Value → Session → Answer × Session}
    (hf : ∀ (v : Value) (s' : Session), s'.InOrder C.toOrder →
      s.machine.extent ≤ s'.machine.extent →
      C.value s'.machine.extent v → (f v s').2.InOrder C.toOrder)
    (o : Operand) :
    (s.withValue o f).2.InOrder C.toOrder := by
  have hextent : s.machine.extent ≤
      { s.machine with made := s.machine.made + 1 }.extent :=
    ⟨Nat.le_succ _, Nat.le_refl _⟩
  have hmade : ∀ b : Blueprint, (s.make b).2.InOrder C.toOrder :=
    fun _ => proceed hs hextent (C.machine_made hs.machine)
  cases o with
  | unit => exact hf _ s hs (le_refl _) (C.value_unit _)
  | number x => exact hf _ s hs (le_refl _) (C.value_number _ x)
  | text t => exact hf _ s hs (le_refl _) (C.value_text _ t)
  | builtin name =>
      exact hf _ _ (hmade (.builtin name [])) hextent
        (C.value_builtin (Nat.lt_succ_self _) name)
  | foreign kind t =>
      exact hf _ _ (hmade (.foreign (.ofText kind t))) hextent
        (C.value_foreign (Nat.lt_succ_self _) _)
  | register name =>
      cases hv : s.values[name]? with
      | none => simpa [Session.withValue, Session.resolve, hv] using hs
      | some v =>
          simpa [Session.withValue, Session.resolve, hv]
            using hf v s hs (le_refl _) (hs.values hv)

theorem finish
    {result : Except InterpretError Value × Machine}
    (h : C.Covers s.machine.extent result) (dest : Option String) :
    (s.finish dest result).2.InOrder C.toOrder := by
  obtain ⟨outcome, m⟩ := result
  have hm := proceed hs h.extent h.machine
  cases outcome with
  | ok v => exact keep hm (h.value rfl) dest
  | error e => exact hm

theorem finishCall
    {x : EvalM Value}
    (hgrows : x.Grows) (hleaves : C.Leaves (x s.machine)) (dest : Option String) :
    (s.finishCall dest x).2.InOrder C.toOrder := by
  unfold Session.finishCall
  split
  · exact hs
  · rename_i v m h
    exact keep (proceed hs (hgrows h).extent (hleaves h).1)
      ((hleaves h).2 v rfl) dest
  · rename_i e m h
    exact proceed hs (hgrows h).extent (hleaves h).1

/-- The store has changed and has lost no frame. -/
theorem mapStore
    {f : Store → Store}
    (hsize : s.machine.store.frames.size ≤ (f s.machine.store).frames.size)
    (hm : C.machine { s.machine with store := f s.machine.store }) :
    (s.mapStore f).InOrder C.toOrder :=
  proceed hs ⟨Nat.le_refl _, hsize⟩ hm

/-- Making a host function and binding it. -/
theorem bindBuiltin
    (scope : Scope) (name : String) :
    let m := { s.machine with made := s.machine.made + 1 }
    let v := Value.builtin s.machine.made name []
    { s with machine := m.define scope name v }.InOrder C.toOrder := by
  have hmade := C.machine_made hs.machine
  refine proceed hs ⟨Nat.le_succ _, ?_⟩ (C.machine_define hmade
    (C.value_builtin (Nat.lt_succ_self _) name) scope name)
  simp [Machine.extent, Machine.define]

end Parts

/-- Every step keeps a session in order. -/
theorem step
    {s : Session} (hw : w₀ ≤ s.machine.extent) (hs : s.InOrder C.toOrder)
    (x : Step) :
    (s.step host x).2.InOrder C.toOrder := by
  cases x with
  | eval source scope table dest =>
      refine withScope hs (fun scope hscope => ?_) scope
      split
      · exact hs
      · exact finish hs (C.runSource hw hs.machine hscope _ source) dest
  | evalTree json scope table dest =>
      refine withScope hs (fun scope hscope => ?_) scope
      split
      · exact hs
      · exact finish hs (C.runJson hw hs.machine hscope _ json) dest
  | call callee argument dest =>
      refine withValue hs (fun f s₁ hs₁ hfirst hf => ?_) callee
      refine withValue hs₁ (fun a s₂ hs₂ hextent ha => ?_) argument
      have hcall :=
        C.call (hw.trans (hfirst.trans hextent)) hs₂.machine
          (C.value_later hextent hf) ha
      exact finishCall hs₂ (callValue_grows host _ _ f a) hcall dest
  | value o dest => exact withValue hs (fun v s₁ hs₁ _ hv => keep hs₁ hv dest) o
  | equal left right =>
      exact withValue hs (fun _ s₁ hs₁ _ _ =>
        withValue hs₁ (fun _ _ hs₂ _ _ => hs₂) right) left
  | number o =>
      refine withValue hs (fun v s₁ hs₁ _ _ => ?_) o
      split <;> exact hs₁
  | downcast o kind =>
      refine withValue hs (fun v s₁ hs₁ _ _ => ?_) o
      split <;> exact hs₁
  | closure o =>
      refine withValue hs (fun v s₁ hs₁ _ _ => ?_) o
      split <;> exact hs₁
  | captured o dest =>
      refine withValue hs (fun v s₁ hs₁ _ hv => ?_) o
      cases v with
      | function i c => exact nameScope hs₁ (C.value_captured hv) dest
      | _ => exact hs₁
  | log => exact proceed hs (le_refl _) (C.machine_log hs.machine _)
  | scopeNew dest =>
      have hm :=
        mapStore hs (f := Store.pushRoot) (by simp [Store.pushRoot])
          (C.machine_pushRoot hs.machine)
      exact nameScope hm
        (by simp [Session.mapStore, Store.next, Store.pushRoot]) dest
  | scopeClone scope dest =>
      exact withScope hs (fun _ hscope => nameScope hs hscope dest) scope
  | extend scope name o dest =>
      refine withScope hs (fun scope hscope => ?_) scope
      refine withValue hs (fun v s₁ hs₁ hextent hv => ?_) o
      have hparent := Nat.lt_of_lt_of_le hscope hextent.2
      have hm :=
        mapStore hs₁ (f := (·.pushChild scope name v)) (by simp)
          (C.machine_pushChild hs₁.machine hparent hv name)
      exact nameScope hm (by simp [Session.mapStore, Store.next]) dest
  | define scope name o =>
      refine withScope hs (fun scope _ => ?_) scope
      refine withValue hs (fun v s₁ hs₁ _ hv => ?_) o
      exact mapStore hs₁ (f := (·.define scope name v)) (by simp)
        (C.machine_define hs₁.machine hv scope name)
  | lookup scope name dest =>
      refine withScope hs (fun scope _ => ?_) scope
      split
      · rename_i v hv
        exact keep hs (C.machine_lookup hs.machine hv) dest
      · exact hs
  | contains scope name => exact withScope hs (fun _ _ => hs) scope
  | sameFrame left right =>
      exact withScope hs (fun _ _ => withScope hs (fun _ _ => hs) right) left
  | names scope => exact withScope hs (fun _ _ => hs) scope
  | scopeInspect scope => exact withScope hs (fun _ _ => hs) scope
  | clear scope =>
      refine withScope hs (fun scope _ => ?_) scope
      exact mapStore hs (f := (·.clear scope)) (by simp)
        (C.machine_clear hs.machine scope)
  | «prelude» scope =>
      refine withScope hs (fun scope _ => ?_) scope
      exact bindBuiltin (bindBuiltin hs scope "add") scope "mul"
  | tableNew dest entries => exact ⟨hs.machine, hs.scopes, hs.values⟩
  | tableInsert table symbol operator =>
      exact withTable hs (fun _ => ⟨hs.machine, hs.scopes, hs.values⟩) table
  | tableClone table dest =>
      exact withTable hs (fun _ => ⟨hs.machine, hs.scopes, hs.values⟩) table
  | tableInfo table => exact withTable hs (fun _ => hs) table
  | tableContains table symbol => exact withTable hs (fun _ => hs) table
  | tableCall table symbol left right dest =>
      refine withTable hs (fun t => ?_) table
      refine withValue hs (fun l s₁ hs₁ hfirst hl => ?_) left
      refine withValue hs₁ (fun r s₂ hs₂ hextent hr => ?_) right
      split
      · exact hs₂
      · have hleaves := C.operator (hw.trans (hfirst.trans hextent)) hs₂.machine
          (C.value_later hextent hl) hr
        exact finishCall hs₂ (action_grows host _ _) (hleaves _ symbol) dest

end Custody

end Curried
