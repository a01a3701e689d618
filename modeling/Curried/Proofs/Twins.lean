import Curried.Proofs.Reference
import Curried.Proofs.Simulation
import Curried.Proofs.StoreGrowth

/-!
# Twins

Two runs that differ in nothing but in what is never looked at: in the wording
of function bodies that have the same code, and in entries of operator tables
for symbols that the code does not use.

**Twins.**  Twin functions have the same name, parameters and scope, bodies that
are alike, and tables that agree about the symbols of these bodies.  Whether
bodies that are alike may differ in their wording is for a `Likeness` to say.
Twin machines have the same frames, in which the same names are bound to twin
values.

**Results.**
* `Simulation.twins`: twins are kept by evaluations and calls.
* `Value.twin_refl`, `Machine.twin_refl`: everything is a twin of itself.
-/

namespace Curried

/-- The code has an operator with that symbol. -/
inductive Code.Uses (symbol : String) : Code → Prop
  | sequence {parts : List Code} {c : Code} :
      c ∈ parts → Uses symbol c → Uses symbol (.sequence parts)
  | define {name parameter : String} {others : List String} {body : Code} :
      Uses symbol body → Uses symbol (.define name parameter others body)
  | bind {name : String} {value : Code} :
      Uses symbol value → Uses symbol (.bind name value)
  | operator {left right : Code} :
      Uses symbol (.operate left symbol right)
  | left {s : String} {left right : Code} :
      Uses symbol left → Uses symbol (.operate left s right)
  | right {s : String} {left right : Code} :
      Uses symbol right → Uses symbol (.operate left s right)
  | function {function argument : Code} :
      Uses symbol function → Uses symbol (.apply function argument)
  | argument {function argument : Code} :
      Uses symbol argument → Uses symbol (.apply function argument)

theorem Code.Uses.of_mem_parts
    {symbol : String} {c part : Code}
    (hpart : part ∈ c.parts) (h : part.Uses symbol) :
    c.Uses symbol := by
  cases c with
  | sequence parts => exact .sequence hpart h
  | bind name value => exact .bind (List.mem_singleton.1 hpart ▸ h)
  | operate left s right =>
      rcases List.mem_pair.1 hpart with rfl | rfl
      · exact .left h
      · exact .right h
  | apply function argument =>
      rcases List.mem_pair.1 hpart with rfl | rfl
      · exact .function h
      · exact .argument h
  | _ => cases hpart

/-- For each symbol of the code the tables have the same entry, or neither has
one. -/
def Table.AgreeOn (c : Code) (table table' : Table) : Prop :=
  ∀ ⦃symbol : String⦄, c.Uses symbol → table.find? symbol = table'.find? symbol

variable {L : Likeness}

/-- The functions are the same but for the entries of their tables that the
bodies do not use, and their bodies are alike. -/
structure Closure.Twin (L : Likeness) (c c' : Closure) : Prop where
  name : c.name = c'.name
  params : c.params = c'.params
  next : c.next = c'.next
  scope : c.scope = c'.scope
  body : L.like c.body c'.body
  table : c.table.AgreeOn c.body.code c'.table

theorem Closure.Twin.refl (c : Closure) : c.Twin L c :=
  ⟨rfl, rfl, rfl, rfl, L.refl _, fun _ _ => rfl⟩

theorem Closure.Twin.parameter_eq
    {c c' : Closure}
    (h : c.Twin L c') :
    c.parameter = c'.parameter := by
  rw [Closure.parameter, Closure.parameter, h.params, h.next]

/-- What is made gets the same number in both runs. -/
def Kinship.twins (L : Likeness) : Kinship where
  World := Unit
  later := fun _ _ => True
  identity := fun _ => Eq
  function := fun _ => Closure.Twin L
  later_refl := fun _ => trivial
  later_trans := fun _ _ => trivial
  identity_later := fun _ h => h
  function_later := fun _ h => h
  identity_iff := fun hi hj => by rw [hi, hj]
  name_eq := fun h => h.name
  arity_eq := fun h => by rw [Closure.arity, Closure.arity, h.params, h.next]

/-- The values are the same but for functions in them that are twins. -/
abbrev Value.Twin (L : Likeness) : Value → Value → Prop :=
  Value.Kin (.twins L) ()

theorem Value.twin_refl : ∀ v : Value, v.Twin L v
  | .unit => .unit
  | .number x => .number x
  | .text s => .text s
  | .function _ c => .function rfl (.refl c)
  | .foreign _ parcel => .foreign parcel rfl
  | .builtin _ name received => by
      refine .builtin name rfl rfl fun v v' hmem => ?_
      obtain ⟨i, hi⟩ := List.mem_iff_getElem?.1 hmem
      obtain ⟨hv, hv'⟩ := List.getElem?_zip_eq_some.1 hi
      obtain rfl : v = v' := by simpa using hv.symm.trans hv'
      have : sizeOf v < sizeOf received :=
        List.sizeOf_lt_of_mem (List.mem_of_getElem? hv)
      exact twin_refl v

theorem Value.Twin.appearance_eq
    {v v' : Value}
    (h : v.Twin L v') :
    v.appearance = v'.appearance := by
  have hparameters : v.closure?.map Closure.parameters =
      v'.closure?.map Closure.parameters := by
    cases h with
    | function _ hc =>
        simp only [Value.closure?, Option.map_some, Closure.parameters,
          hc.params, hc.next]
    | _ => rfl
  rw [Value.appearance, Value.appearance, h.typeName_eq, h.display_eq, hparameters]

/-- The frames have the same parent, and the same names bound to twins. -/
structure Frame.Twin (L : Likeness) (f f' : Frame) : Prop where
  parent : f.parent = f'.parent
  bindings : ∀ x : String, Option.Rel (Value.Twin L) f.bindings[x]? f'.bindings[x]?

/-- The frames with the same number are twins. -/
structure Store.Twin (L : Likeness) (s s' : Store) : Prop where
  size : s.frames.size = s'.frames.size
  frame : ∀ scope : Scope,
    Option.Rel (Frame.Twin L) (s.frame? scope) (s'.frame? scope)

namespace Store.Twin

variable {s s' : Store}

theorem refl (s : Store) : s.Twin L s where
  size := rfl
  frame := by
    intro scope
    cases s.frame? scope with
    | none => exact .none
    | some f =>
        refine .some ⟨rfl, fun x => ?_⟩
        cases f.bindings[x]? with
        | none => exact .none
        | some v => exact .some v.twin_refl

theorem next_eq
    (h : s.Twin L s') :
    s.next = s'.next := by
  rw [Store.next, Store.next, h.size]

theorem push
    (h : s.Twin L s') {f f' : Frame}
    (hf : f.Twin L f') :
    (s.push f).Twin L (s'.push f') where
  size := by simp [Store.push, h.size]
  frame := by
    intro scope
    rw [Store.frame?_push, Store.frame?_push, h.next_eq]
    split
    · exact .some hf
    · exact h.frame scope

theorem pushRoot
    (h : s.Twin L s') :
    s.pushRoot.Twin L s'.pushRoot :=
  h.push ⟨rfl, fun x => by simp⟩

theorem pushChild
    (h : s.Twin L s') {v v' : Value}
    (hv : v.Twin L v') (scope : Scope) (x : String) :
    (s.pushChild scope x v).Twin L (s'.pushChild scope x v') :=
  h.push ⟨rfl, rel_insert (fun y => by simp) hv x⟩

/-- One frame is changed on both sides. -/
theorem modify
    (h : s.Twin L s') {g g' : Frame → Frame}
    (hg : ∀ f f', f.Twin L f' → (g f).Twin L (g' f')) (scope : Scope) :
    Store.Twin L ⟨s.frames.modify scope.index g⟩
      ⟨s'.frames.modify scope.index g'⟩ where
  size := by simp [h.size]
  frame := by
    intro other
    rw [Store.frame?_modify, Store.frame?_modify]
    split
    · have hframe := h.frame scope
      generalize s.frame? scope = o, s'.frame? scope = o' at hframe
      cases hframe with
      | none => exact .none
      | some hf => exact .some (hg _ _ hf)
    · exact h.frame other

theorem define
    (h : s.Twin L s') {v v' : Value}
    (hv : v.Twin L v') (scope : Scope) (x : String) :
    (s.define scope x v).Twin L (s'.define scope x v') := by
  refine h.modify ?_ scope
  intro f f' hf
  exact ⟨hf.parent, rel_insert hf.bindings hv x⟩

theorem clear
    (h : s.Twin L s') (scope : Scope) :
    (s.clear scope).Twin L (s'.clear scope) := by
  refine h.modify ?_ scope
  intro f f' hf
  exact ⟨hf.parent, fun x => by simp⟩

/-- The same search finds twins. -/
theorem lookupWithin
    (h : s.Twin L s') (x : String) :
    ∀ (n : Nat) (scope : Scope),
      Option.Rel (Value.Twin L) (s.lookupWithin x n scope)
        (s'.lookupWithin x n scope)
  | 0, _ => .none
  | n + 1, scope => by
      rw [Store.lookupWithin, Store.lookupWithin]
      have hframe := h.frame scope
      generalize s.frame? scope = o, s'.frame? scope = o' at hframe
      cases hframe with
      | none => exact .none
      | @some f f' hf =>
          have hx := hf.bindings x
          dsimp only
          generalize f.bindings[x]? = b, f'.bindings[x]? = b' at hx
          cases hx with
          | some hv => exact .some hv
          | none =>
              rw [← hf.parent]
              cases f.parent with
              | none => exact .none
              | some parent => exact h.lookupWithin x n parent

theorem lookup
    (h : s.Twin L s') (scope : Scope) (x : String) :
    Option.Rel (Value.Twin L) (s.lookup scope x) (s'.lookup scope x) :=
  h.lookupWithin x _ scope

theorem named
    (h : s.Twin L s') (scope : Scope) (x : String) :
    Both (Value.Twin L) (s.named scope x) (s'.named scope x) :=
  Store.both_named (h.lookup scope x) fun _ => rfl

theorem names_eq
    (h : s.Twin L s') (scope : Scope) :
    s.names scope = s'.names scope := by
  have hframe := h.frame scope
  unfold Store.names
  generalize s.frame? scope = o, s'.frame? scope = o' at hframe
  cases hframe with
  | none => rfl
  | some hf => exact keys_eq_of_rel hf.bindings

theorem survey_eq
    (h : s.Twin L s') (scope : Scope) :
    s.survey scope = s'.survey scope := by
  have happearance : ∀ x, (s.lookup scope x).map Value.appearance =
      (s'.lookup scope x).map Value.appearance := by
    intro x
    have hfound := h.lookup scope x
    generalize s.lookup scope x = o, s'.lookup scope x = o' at hfound
    cases hfound with
    | none => rfl
    | some hv => exact congrArg some hv.appearance_eq
  simp only [Store.survey, h.names_eq, happearance]

theorem inspect_eq
    (h : s.Twin L s') (scope : Scope) :
    s.inspect scope = s'.inspect scope := by
  have hparent : s.hasParent scope = s'.hasParent scope := by
    have hframe := h.frame scope
    unfold Store.hasParent
    generalize s.frame? scope = o, s'.frame? scope = o' at hframe
    cases hframe with
    | none => rfl
    | some hf => exact congrArg Option.isSome hf.parent
  unfold Store.inspect
  rw [h.names_eq scope, hparent]

end Store.Twin

/-- The machines are the same but for their journals and for twins. -/
structure Machine.Twin (L : Likeness) (m m' : Machine) : Prop where
  store : m.store.Twin L m'.store
  made : m.made = m'.made
  depth : m.depth = m'.depth
  log : m.log = m'.log

theorem Machine.twin_refl (m : Machine) : m.Twin L m :=
  ⟨.refl m.store, rfl, rfl, rfl⟩

/-- The trees are alike, and are evaluated in the same scope, under tables that
agree about the symbols of the code. -/
structure Site.Twin (L : Likeness) (a a' : Site) (t t' : Tree) : Prop where
  scope : a.scope = a'.scope
  tree : L.like t t'
  table : a.table.AgreeOn t.code a'.table

/-- Twins belong together. -/
def Pairing.twins (L : Likeness) : Pairing where
  toKinship := .twins L
  machine := fun _ => Machine.Twin L
  program := fun _ => Site.Twin L

theorem Pairing.twins_binds
    {a a' : Site}
    (h : a.scope = a'.scope) (x : String) :
    (Pairing.twins L).Binds () a a' x x := by
  intro _ m m' v v' _ hm hv
  exact ⟨h ▸ hm.store.define hv a.scope x, hm.made, hm.depth, hm.log⟩

/-- Twins treat their code alike. -/
theorem Site.Twin.agrees
    {a a' : Site} {t t' : Tree}
    (h : a.Twin L a' t t') :
    (Pairing.twins L).Agrees L.like () a a' t.code where
  look := fun x _ m m' _ hm => h.scope ▸ hm.store.named a.scope x
  binds := Pairing.twins_binds h.scope
  parts := by
    intro c c' hc hlike
    exact ⟨h.scope, hlike, fun _ huses => h.table (.of_mem_parts hc huses)⟩
  function := by
    intro name parameter others body body' hdefine hbody
    exact ⟨rfl, rfl, rfl, h.scope, hbody, fun _ huses =>
      h.table (hdefine ▸ .define huses)⟩
  symbol := fun _ _ _ hoperate => h.table (hoperate ▸ .operator)

theorem Machine.Twin.extended
    {m m' : Machine} (h : m.Twin L m')
    {c c' : Closure} (hc : c.Twin L c')
    {v v' : Value} (hv : v.Twin L v') :
    (m.extended c v).Twin L (m'.extended c' v') := by
  refine ⟨?_, h.made, h.depth, h.log⟩
  unfold Machine.extended
  rw [← hc.scope, ← hc.parameter_eq]
  exact h.store.pushChild hv c.scope c.parameter

/-- Twins are kept by evaluations and calls. -/
def Simulation.twins (L : Likeness) : Simulation where
  toPairing := .twins L
  program_later := fun _ h => h
  program_aligned := fun h => L.core_aligned h.tree h.agrees
  machine_unrecorded := by
    intro w m m' n n' h hn hn'
    obtain ⟨hstore, hmade, hdepth, hlog⟩ := h
    obtain ⟨hn₁, hn₂, hn₃, hn₄, -⟩ := Machine.mk.inj hn
    obtain ⟨hn₁', hn₂', hn₃', hn₄', -⟩ := Machine.mk.inj hn'
    refine ⟨?_, ?_, ?_, ?_⟩
    · rw [hn₁, hn₁']
      exact hstore
    · rw [hn₂, hn₂', hmade]
    · rw [hn₃, hn₃', hdepth]
    · rw [hn₄, hn₄', hlog]
  machine_depth := fun h => h.depth
  machine_counted := fun h _ => ⟨h.store, h.made, rfl, h.log⟩
  machine_write :=
    fun h line => ⟨h.store, h.made, h.depth, congrArg (·.push line) h.log⟩
  machine_fresh :=
    fun h => ⟨(), trivial, h.made, h.store, congrArg (· + 1) h.made, h.depth,
      h.log⟩
  function_enter := by
    intro _ m m' c c' v v' hc _ hm hv
    exact ⟨(), trivial, hm.extended hc hv, hm.store.next_eq, hc.body, hc.table⟩
  function_receive := by
    intro _ m m' c c' v v' hc _ hm hv
    have hnext : c.next + 1 = c'.next + 1 := congrArg (· + 1) hc.next
    exact ⟨(), trivial, hm.extended hc hv, hc.name, hc.params, hnext,
      hm.store.next_eq, hc.body, hc.table⟩

end Curried
