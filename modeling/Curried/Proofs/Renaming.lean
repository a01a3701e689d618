import Curried.Proofs.Extent
import Curried.Proofs.Simulation
import Curried.Proofs.StoreGrowth
import Mathlib.Order.Monotone.Basic

/-!
# Renamings

Two runs of the same programs on machines that differ in how values and frames
are numbered, and in what the second machine has made besides.

**Renamings.**  A `Renaming` tells the number in the second run of each value
and of each frame of the first.  Different values keep different numbers, and
frames keep their order.  A frame of the first machine is `Frame.Renamed` as a
frame of the second one: the parent is the renamed parent, and the same names
are bound to renamed values.

**Bodies.**  The bodies of functions are the same, or have the same code: that
is for a `Likeness` to say, which all relations here depend on.

**What is known.**  Only what has been made is renamed, so everything that is
related says of itself, on the side of the first run, that it refers to nothing
else.

**Result.**  `Simulation.renaming`: renamed machines are kept by evaluations and
calls.
-/

namespace Curried

/-- How the values and the frames of one run are numbered in another one. -/
structure Renaming where
  number : Nat → Nat
  frame : Nat → Nat
  number_injective : number.Injective
  frame_strictMono : StrictMono frame

/-- The scope in the other run. -/
def Renaming.scope (ρ : Renaming) (scope : Scope) : Scope :=
  ⟨ρ.frame scope.index⟩

theorem Renaming.scope_inj
    (ρ : Renaming) {a b : Scope} :
    ρ.scope a = ρ.scope b ↔ a = b := by
  constructor
  · intro h
    have hindex := ρ.frame_strictMono.injective (Scope.mk.inj h)
    exact congrArg Scope.mk hindex
  · rintro rfl
    rfl

/-- The scope of the function has been made, and the parameter that it waits for
is there. -/
structure Closure.Known (w : Extent) (c : Closure) : Prop where
  scope : c.scope.index < w.frames
  waits : c.next < c.params.length

namespace Closure.Known

variable {w w' : Extent} {c : Closure}

theorem later
    (h : c.Known w) (hw : w ≤ w') :
    c.Known w' :=
  ⟨Nat.lt_of_lt_of_le h.scope hw.2, h.waits⟩

/-- After an argument that is not the last one, there is another parameter to
wait for. -/
theorem advance
    (h : c.Known w) (hmore : c.arity ≠ 1) {scope : Scope}
    (hscope : scope.index < w'.frames) :
    (c.advance scope).Known w' where
  scope := hscope
  waits := by
    have hwaits := h.waits
    unfold Closure.arity at hmore
    change c.next + 1 < c.params.length
    omega

end Closure.Known

section Relations

variable (L : Likeness) (ρ : Renaming) (w : Extent)

/-- The functions are the same but for the number of the scope, and their bodies
are alike. -/
structure Closure.Renamed (c c' : Closure) : Prop where
  name : c.name = c'.name
  params : c.params = c'.params
  next : c.next = c'.next
  body : L.like c.body c'.body
  scope : c'.scope = ρ.scope c.scope
  table : c.table = c'.table
  known : c.Known w

/-- Numbers and scopes are renamed, and have been made. -/
def Kinship.renaming : Kinship where
  World := Extent
  later := (· ≤ ·)
  identity := fun w i i' => i < w.made ∧ i' = ρ.number i
  function := Closure.Renamed L ρ
  later_refl := le_refl
  later_trans := le_trans
  identity_later := fun hw h => ⟨Nat.lt_of_lt_of_le h.1 hw.1, h.2⟩
  function_later := fun hw h => { h with known := h.known.later hw }
  identity_iff := by
    rintro w i _ j _ ⟨-, rfl⟩ ⟨-, rfl⟩
    exact ρ.number_injective.eq_iff.symm
  name_eq := fun h => h.name
  arity_eq := fun h => by rw [Closure.arity, Closure.arity, h.params, h.next]

/-- The values are the same but for renaming. -/
abbrev Value.Renamed : Value → Value → Prop :=
  Value.Kin (.renaming L ρ) w

/-- The parent is the renamed parent, and the same names are bound to renamed
values. -/
structure Frame.Renamed (f f' : Frame) : Prop where
  parent : f'.parent = f.parent.map ρ.scope
  bindings : ∀ x : String,
    Option.Rel (Value.Renamed L ρ w) f.bindings[x]? f'.bindings[x]?

/-- Each frame of the first store is renamed, parents come earlier, and the next
frames are renamed to the next frames. -/
structure Store.Renamed (s s' : Store) : Prop where
  frame : ∀ ⦃scope : Scope⦄ ⦃f : Frame⦄, s.frame? scope = some f →
    ∃ f', s'.frame? (ρ.scope scope) = some f' ∧ f.Renamed L ρ w f'
  earlier : ∀ ⦃scope parent : Scope⦄ ⦃f : Frame⦄,
    s.frame? scope = some f → f.parent = some parent → parent.index < scope.index
  next : ∀ k, ρ.frame (s.frames.size + k) = s'.frames.size + k

/-- The machines are the same but for renaming, for their logs and journals, and
for what only the second one has. -/
structure Machine.Renamed (m m' : Machine) : Prop where
  store : m.store.Renamed L ρ w m'.store
  extent : m.extent = w
  fresh : ∀ k, ρ.number (m.made + k) = m'.made + k
  depth : m.depth = m'.depth

/-- The trees are alike, and are evaluated under the same table, in a scope and
the renamed scope. -/
structure Site.Renamed (a a' : Site) (t t' : Tree) : Prop where
  table : a.table = a'.table
  scope : a'.scope = ρ.scope a.scope
  known : a.scope.index < w.frames
  tree : L.like t t'

end Relations

variable {L : Likeness} {ρ : Renaming} {w w' : Extent}

theorem Closure.Renamed.parameter_eq
    {c c' : Closure}
    (h : c.Renamed L ρ w c') :
    c.parameter = c'.parameter := by
  rw [Closure.parameter, Closure.parameter, h.params, h.next]

theorem Frame.Renamed.later
    {f f' : Frame}
    (h : f.Renamed L ρ w f') (hw : w ≤ w') :
    f.Renamed L ρ w' f' where
  parent := h.parent
  bindings := fun x => rel_imp (h.bindings x) fun _ _ hv => hv.later hw

namespace Store.Renamed

variable {s s' : Store}

theorem later
    (h : s.Renamed L ρ w s') (hw : w ≤ w') :
    s.Renamed L ρ w' s' where
  frame := by
    intro scope f hf
    obtain ⟨f', hf', hrenamed⟩ := h.frame hf
    exact ⟨f', hf', hrenamed.later hw⟩
  earlier := h.earlier
  next := h.next

theorem scope_next
    (h : s.Renamed L ρ w s') :
    ρ.scope s.next = s'.next :=
  congrArg Scope.mk (h.next 0)

theorem push
    (h : s.Renamed L ρ w s') {f f' : Frame}
    (hf : f.Renamed L ρ w f')
    (hparent : ∀ parent, f.parent = some parent →
      parent.index < s.frames.size) :
    (s.push f).Renamed L ρ w (s'.push f') where
  frame := by
    intro scope g hg
    rw [Store.frame?_push] at hg
    rw [Store.frame?_push, ← h.scope_next]
    split at hg
    · rename_i hscope
      cases hg
      exact ⟨f', by rw [if_pos (congrArg ρ.scope hscope)], hf⟩
    · rename_i hscope
      rw [if_neg (mt ρ.scope_inj.1 hscope)]
      exact h.frame hg
  earlier := by
    intro scope parent g hg hp
    rw [Store.frame?_push] at hg
    split at hg
    · rename_i hscope
      cases hg
      rw [hscope]
      exact hparent parent hp
    · exact h.earlier hg hp
  next := by
    intro k
    rw [Store.size_push, Store.size_push, Nat.add_assoc, Nat.add_assoc]
    exact h.next (1 + k)

/-- One frame is changed on both sides, but for its parent. -/
theorem modify
    (h : s.Renamed L ρ w s') {g g' : Frame → Frame}
    (hparent : ∀ f, (g f).parent = f.parent)
    (hg : ∀ f f', f.Renamed L ρ w f' → (g f).Renamed L ρ w (g' f'))
    (scope : Scope) :
    Store.Renamed L ρ w ⟨s.frames.modify scope.index g⟩
      ⟨s'.frames.modify (ρ.scope scope).index g'⟩ where
  frame := by
    intro other f hf
    rw [Store.frame?_modify] at hf
    rw [Store.frame?_modify]
    split at hf
    · rename_i hother
      obtain ⟨f₀, hf₀, rfl⟩ := Option.map_eq_some_iff.1 hf
      obtain ⟨f', hf', hrenamed⟩ := h.frame hf₀
      exact ⟨g' f', by rw [if_pos (congrArg ρ.scope hother), hf']; rfl,
        hg _ _ hrenamed⟩
    · rename_i hother
      rw [if_neg (mt ρ.scope_inj.1 hother)]
      exact h.frame hf
  earlier := by
    intro other parent f hf hp
    rw [Store.frame?_modify] at hf
    split at hf
    · rename_i hother
      obtain ⟨f₀, hf₀, rfl⟩ := Option.map_eq_some_iff.1 hf
      rw [hparent] at hp
      rw [hother]
      exact h.earlier hf₀ hp
    · exact h.earlier hf hp
  next := by
    intro k
    rw [Array.size_modify, Array.size_modify]
    exact h.next k

theorem define
    (h : s.Renamed L ρ w s') {v v' : Value}
    (hv : v.Renamed L ρ w v') (scope : Scope) (x : String) :
    (s.define scope x v).Renamed L ρ w (s'.define (ρ.scope scope) x v') := by
  refine h.modify ?_ ?_ scope
  · intro f
    rfl
  intro f f' hf
  exact ⟨hf.parent, rel_insert hf.bindings hv x⟩

theorem clear
    (h : s.Renamed L ρ w s') (scope : Scope) :
    (s.clear scope).Renamed L ρ w (s'.clear (ρ.scope scope)) := by
  refine h.modify ?_ ?_ scope
  · intro f
    rfl
  intro f f' hf
  exact ⟨hf.parent, fun x => by simp⟩

/-- Searches find renamed values.  Parents come earlier, so neither search is
cut short. -/
theorem lookupWithin
    (h : s.Renamed L ρ w s') (x : String) :
    ∀ {n n' : Nat} {scope : Scope}, scope.index < n →
      (ρ.scope scope).index < n' → scope.index < s.frames.size →
      Option.Rel (Value.Renamed L ρ w) (s.lookupWithin x n scope)
        (s'.lookupWithin x n' (ρ.scope scope))
  | n + 1, n' + 1, scope, hn, hn', hscope => by
      obtain ⟨f, hf⟩ := Store.exists_frame hscope
      obtain ⟨f', hf', hrenamed⟩ := h.frame hf
      simp only [Store.lookupWithin, hf, hf']
      have hx := hrenamed.bindings x
      generalize f.bindings[x]? = b, f'.bindings[x]? = b' at hx
      cases hx with
      | some hv => exact .some hv
      | none =>
          rw [hrenamed.parent]
          cases hp : f.parent with
          | none => exact .none
          | some parent =>
              have hless := h.earlier hf hp
              have hless' : (ρ.scope parent).index < (ρ.scope scope).index :=
                ρ.frame_strictMono hless
              exact h.lookupWithin x (by omega) (by omega) (by omega)

theorem lookup
    (h : s.Renamed L ρ w s') {scope : Scope}
    (hscope : scope.index < s.frames.size) (x : String) :
    Option.Rel (Value.Renamed L ρ w) (s.lookup scope x)
      (s'.lookup (ρ.scope scope) x) :=
  h.lookupWithin x (Nat.lt_succ_self _) (Nat.lt_succ_self _) hscope

theorem named
    (h : s.Renamed L ρ w s') {scope : Scope}
    (hscope : scope.index < s.frames.size) (x : String) :
    Both (Value.Renamed L ρ w) (s.named scope x) (s'.named (ρ.scope scope) x) :=
  Store.both_named (h.lookup hscope x) fun _ => rfl

theorem names_eq
    (h : s.Renamed L ρ w s') {scope : Scope}
    (hscope : scope.index < s.frames.size) :
    s.names scope = s'.names (ρ.scope scope) := by
  obtain ⟨f, hf⟩ := Store.exists_frame hscope
  obtain ⟨f', hf', hrenamed⟩ := h.frame hf
  simp only [Store.names, hf, hf']
  exact keys_eq_of_rel hrenamed.bindings

end Store.Renamed

namespace Machine.Renamed

variable {m m' : Machine}

theorem frames
    (h : m.Renamed L ρ w m') :
    m.store.frames.size = w.frames :=
  congrArg Extent.frames h.extent

theorem define
    (h : m.Renamed L ρ w m') {v v' : Value}
    (hv : v.Renamed L ρ w v') (scope : Scope) (x : String) :
    (m.define scope x v).Renamed L ρ w (m'.define (ρ.scope scope) x v') where
  store := h.store.define hv scope x
  extent := by
    rw [← h.extent]
    exact congrArg (Extent.mk m.made) (Store.size_define _ _ _ _)
  fresh := h.fresh
  depth := h.depth

theorem clear
    (h : m.Renamed L ρ w m') (scope : Scope) :
    Machine.Renamed L ρ w { m with store := m.store.clear scope }
      { m' with store := m'.store.clear (ρ.scope scope) } where
  store := h.store.clear scope
  extent := by
    rw [← h.extent]
    exact congrArg (Extent.mk m.made) (Store.size_clear _ _)
  fresh := h.fresh
  depth := h.depth

/-- A frame has been added on both sides. -/
theorem push
    (h : m.Renamed L ρ w m') {f f' : Frame}
    (hf : f.Renamed L ρ w f')
    (hparent : ∀ parent, f.parent = some parent → parent.index < w.frames) :
    Machine.Renamed L ρ ⟨w.made, w.frames + 1⟩
      { m with store := m.store.push f }
      { m' with store := m'.store.push f' } where
  store :=
    (h.store.push hf (h.frames ▸ hparent)).later ⟨Nat.le_refl _, Nat.le_succ _⟩
  extent := by
    rw [← h.extent]
    exact congrArg (Extent.mk m.made) (Store.size_push _ _)
  fresh := h.fresh
  depth := h.depth

theorem extended
    (h : m.Renamed L ρ w m') {c c' : Closure} {v v' : Value}
    (hc : c.Renamed L ρ w c') (hv : v.Renamed L ρ w v') :
    (m.extended c v).Renamed L ρ ⟨w.made, w.frames + 1⟩ (m'.extended c' v') := by
  unfold Machine.extended
  rw [← hc.parameter_eq, hc.scope]
  refine h.push ⟨rfl, rel_insert (fun y => by simp) hv c.parameter⟩ ?_
  rintro parent ⟨⟩
  exact hc.known.scope

end Machine.Renamed

/-- What is renamed belongs together. -/
def Pairing.renaming (L : Likeness) (ρ : Renaming) : Pairing where
  toKinship := .renaming L ρ
  machine := Machine.Renamed L ρ
  program := Site.Renamed L ρ

/-- A name can be bound in a scope and the renamed scope. -/
theorem Pairing.renaming_binds
    {a a' : Site}
    (h : a'.scope = ρ.scope a.scope) (x : String) :
    (Pairing.renaming L ρ).Binds w a a' x x := by
  intro w₁ m m' v v' _ hm hv
  rw [h]
  exact hm.define hv a.scope x

/-- Renamed sites treat all code alike. -/
theorem Site.Renamed.agrees
    {a a' : Site} {t t' : Tree}
    (h : a.Renamed L ρ w a' t t') (c : Code) :
    (Pairing.renaming L ρ).Agrees L.like w a a' c where
  look := by
    intro x w₁ m m' hw hm
    rw [h.scope]
    refine hm.store.named ?_ x
    rw [hm.frames]
    exact Nat.lt_of_lt_of_le h.known hw.2
  binds := Pairing.renaming_binds h.scope
  parts := fun _ _ _ hlike => ⟨h.table, h.scope, h.known, hlike⟩
  function := fun _ _ _ _ _ _ hlike =>
    ⟨rfl, rfl, rfl, hlike, h.scope, h.table, h.known, Nat.succ_pos _⟩
  symbol := fun _ _ _ _ => by rw [h.table]

/-- Renamed machines are kept by evaluations and calls. -/
def Simulation.renaming (L : Likeness) (ρ : Renaming) : Simulation where
  toPairing := .renaming L ρ
  program_later := fun hw h => { h with known := Nat.lt_of_lt_of_le h.known hw.2 }
  program_aligned := fun h => L.core_aligned h.tree (h.agrees _)
  machine_unrecorded := by
    intro w m m' n n' h hn hn'
    obtain ⟨hstore, hmade, hdepth, -⟩ := Machine.mk.inj hn
    obtain ⟨hstore', hmade', hdepth', -⟩ := Machine.mk.inj hn'
    refine ⟨hstore ▸ hstore' ▸ h.store, ?_, ?_, ?_⟩
    · rw [← h.extent, Machine.extent, hstore, hmade]
      rfl
    · rw [hmade, hmade']
      exact h.fresh
    · rw [hdepth, hdepth']
      exact h.depth
  machine_depth := fun h => h.depth
  machine_counted := fun h _ => { h with depth := rfl }
  machine_write := fun h _ => ⟨h.store, h.extent, h.fresh, h.depth⟩
  machine_fresh := by
    intro w m m' h
    have hmade : m.made = w.made := congrArg Extent.made h.extent
    refine ⟨⟨w.made + 1, w.frames⟩, ⟨Nat.le_succ _, Nat.le_refl _⟩,
      ⟨hmade ▸ Nat.lt_succ_self _, (h.fresh 0).symm⟩, ?_⟩
    refine ⟨h.store.later ⟨Nat.le_succ _, Nat.le_refl _⟩, ?_, ?_, h.depth⟩
    · rw [← h.extent]
      rfl
    · intro k
      rw [Nat.add_assoc, Nat.add_assoc]
      exact h.fresh (1 + k)
  function_enter := by
    intro w m m' c c' v v' hc _ hm hv
    refine ⟨⟨w.made, w.frames + 1⟩, ⟨Nat.le_refl _, Nat.le_succ _⟩,
      hm.extended hc hv, ?_⟩
    exact ⟨hc.table, hm.store.scope_next.symm, hm.frames ▸ Nat.lt_succ_self _, hc.body⟩
  function_receive := by
    intro w m m' c c' v v' hc hmore hm hv
    have hnext : c.next + 1 = c'.next + 1 := congrArg (· + 1) hc.next
    have hlast : m.store.next.index < w.frames + 1 := hm.frames ▸ Nat.lt_succ_self _
    refine ⟨⟨w.made, w.frames + 1⟩, ⟨Nat.le_refl _, Nat.le_succ _⟩,
      hm.extended hc hv, ?_⟩
    exact ⟨hc.name, hc.params, hnext, hc.body, hm.store.scope_next.symm, hc.table,
      hc.known.advance hmore hlast⟩

end Curried
