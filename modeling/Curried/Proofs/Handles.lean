import Curried.Proofs.Custody
import Curried.Proofs.Discipline

/-!
# Handles

Scopes are handed about as numbers.  In every state that a session can come to,
all of them are numbers of frames that have been made, and every frame was made
after its parent.

**Discipline.**  `Discipline.handles` asks that the scopes of functions and the
parents of frames have been made before; it carries this through evaluations and
calls.  `Discipline.OfHandles` tells the disciplines that ask for this and, of
functions, maybe more.

**Sessions.**  `Session.Reachable host s` says that the steps of some session
lead to `s`.  `Session.Sound d s` says that what is kept under names is in order
as well; `Custody.ofDiscipline` shows that every step keeps it so.

**Searches.**  `Store.Finds s x scope found` says that the search for a name,
from a frame to its parent for as long as there is one, comes to an end with
`found`.

**Results.**
* `Session.Reachable.sound`: the handles of all states are in order.
* `Store.finds_lookup`: where the parents are in order, every search ends, with
  what `lookup` gives.
-/

namespace Curried

/-- Trees are evaluated in scopes that have been made, functions have captured
such scopes, and the parent of a frame was made before the frame. -/
def Discipline.handles : Discipline where
  node := fun n scope _ => scope.index < n
  function := fun n c => c.scope.index < n
  parent := fun n scope => scope.index < n
  error := fun _ => True
  node_mono := fun hnk h => Nat.lt_of_lt_of_le h hnk
  function_mono := fun hnk h => Nat.lt_of_lt_of_le h hnk
  node_parts := fun h _ => h
  node_fail := fun _ _ => trivial
  node_define := fun h _ _ => h
  function_parent := fun h => h
  function_receive := fun _ _ => Nat.lt_succ_self _
  function_enter := fun _ _ => Nat.lt_succ_self _
  error_dynamic := fun _ => trivial

theorem Host.standard_obeys_handles : Host.standard.Obeys .handles :=
  Host.standard_obeys fun _ _ _ _ _ => trivial

/-- The discipline asks of the places in which trees are evaluated, and of the
parents of frames, that they have been made, and of functions at least that
their scopes have. -/
structure Discipline.OfHandles (d : Discipline) : Prop where
  node : ∀ {n : Nat} {scope : Scope} {t : Tree}, scope.index < n → d.node n scope t
  parent : ∀ {n : Nat} {scope : Scope}, d.parent n scope ↔ scope.index < n
  function : ∀ {n : Nat} {c : Closure}, d.function n c → c.scope.index < n

theorem Discipline.handles_ofHandles : Discipline.handles.OfHandles where
  node := fun h => h
  parent := Iff.rfl
  function := fun h => h

theorem Discipline.OfHandles.store
    {d : Discipline} (hd : d.OfHandles)
    {s : Store} (hs : s.Obeys d) :
    s.Obeys .handles where
  value := fun _ _ _ _ hf hv => (hs.value hf hv).imp fun _ => hd.function
  parent := fun _ _ _ hf hp => hd.parent.1 (hs.parent hf hp)

namespace Store

/-- The search for a name ends with `found`: the first binding on the way to the
root, or none at all. -/
inductive Finds (s : Store) (x : String) : Scope → Option Value → Prop
  | here {scope : Scope} {f : Frame} {v : Value} :
      s.frame? scope = some f → f.bindings[x]? = some v →
      Finds s x scope (some v)
  | above {scope parent : Scope} {f : Frame} {found : Option Value} :
      s.frame? scope = some f → f.bindings[x]? = none → f.parent = some parent →
      Finds s x parent found →
      Finds s x scope found
  | nowhere {scope : Scope} {f : Frame} :
      s.frame? scope = some f → f.bindings[x]? = none → f.parent = none →
      Finds s x scope none

/-- The bound on the frames that are searched is never what ends the search. -/
theorem finds_lookupWithin
    {s : Store} (hs : s.Obeys .handles) (x : String) :
    ∀ {n : Nat} {scope : Scope}, scope.index < n → scope.index < s.frames.size →
      s.Finds x scope (s.lookupWithin x n scope)
  | n + 1, scope, hn, hscope => by
      obtain ⟨f, hf⟩ := exists_frame hscope
      simp only [lookupWithin, hf]
      cases hv : f.bindings[x]? with
      | some v => exact .here hf hv
      | none =>
          cases hp : f.parent with
          | none => exact .nowhere hf hv hp
          | some parent =>
              have hless : parent.index < scope.index := hs.parent hf hp
              exact .above hf hv hp (finds_lookupWithin hs x (by omega) (by omega))

/-- Where the parents are in order, every search ends, with what `lookup`
gives. -/
theorem finds_lookup
    {s : Store} (hs : s.Obeys .handles)
    {scope : Scope} (hscope : scope.index < s.frames.size) (x : String) :
    s.Finds x scope (s.lookup scope x) :=
  finds_lookupWithin hs x (Nat.lt_succ_self _) hscope

end Store

namespace Session

variable {d : Discipline}

/-- The scopes that are named are scopes of frames, and the values in the frames
and those that are named keep to the discipline. -/
structure Sound (d : Discipline) (s : Session) : Prop where
  store : s.machine.store.Obeys d
  scopes : ∀ {name : String} {scope : Scope},
    s.scopes[name]? = some scope → scope.index < s.machine.store.frames.size
  values : ∀ {name : String} {v : Value},
    s.values[name]? = some v → v.Obeys d s.machine.store.frames.size

/-- The steps of a session lead to the state. -/
inductive Reachable (host : Host) : Session → Prop
  | initial : Reachable host initial
  | step {s : Session} (x : Step) : Reachable host s →
      Reachable host (s.step host x).2

end Session

/-- The stores and the values that keep to a discipline. -/
def Order.ofDiscipline (d : Discipline) : Order where
  machine := fun m => m.store.Obeys d
  value := fun w v => v.Obeys d w.frames

theorem EvalM.Obeys.leaves
    {d : Discipline} {x : EvalM Value} {m : Machine}
    (hx : x.GivesObedient d m.store.frames.size) (hm : m.store.Obeys d) :
    (Order.ofDiscipline d).Leaves (x m) := by
  intro r m' h
  obtain ⟨-, hm', hr⟩ := hx (Nat.le_refl _) hm h
  refine ⟨hm', ?_⟩
  rintro v rfl
  exact hr

/-- A session keeps to a discipline of handles if the host does. -/
def Custody.ofDiscipline
    {d : Discipline} (hd : d.OfHandles) {host : Host} (hhost : host.Obeys d)
    (w₀ : Extent) :
    Custody host w₀ where
  toOrder := .ofDiscipline d
  value_later := fun hw h => h.mono hw.2
  value_unit := fun _ => .unit
  value_number := fun _ => .number
  value_text := fun _ => .text
  value_builtin := fun _ name => .builtin _ name (by simp)
  value_foreign := fun _ => .foreign _
  value_captured := by
    intro w i c h
    cases h with
    | function _ hc => exact hd.function hc
  machine_made := fun h => h
  machine_log := fun h _ => h
  machine_pushRoot := fun h => h.pushRoot
  machine_pushChild := fun h hscope hv x => h.pushChild (hd.parent.2 hscope) hv x
  machine_define := fun h hv scope x => h.define hv scope x
  machine_clear := fun h scope => h.clear scope
  machine_lookup := fun h hfound => h.lookup hfound
  evaluate := fun _ hm hscope table t =>
    (evalTree_obeys hhost (callValue_obeys hhost callAllowance) t
      (hd.node hscope) table).leaves hm
  call := fun _ hm hcallee hargument =>
    (callValue_obeys hhost callAllowance List.mem_cons_self hcallee
      hargument).leaves hm
  operator := fun _ hm hleft hright name symbol =>
    (EvalM.Obeys.action (callValue_obeys hhost callAllowance)
      (hhost.operator name symbol hleft hright)).leaves hm

namespace Session

variable {d : Discipline}

theorem sound_iff_inOrder
    {s : Session} :
    s.Sound d ↔ s.InOrder (.ofDiscipline d) :=
  ⟨fun h => ⟨h.store, h.scopes, h.values⟩, fun h => ⟨h.machine, h.scopes, h.values⟩⟩

theorem initial_sound : initial.Sound d :=
  sound_iff_inOrder.2 (initial_inOrder Store.Obeys.empty.pushRoot)

theorem step_sound
    (hd : d.OfHandles) {host : Host} (hhost : host.Obeys d)
    {s : Session} (hs : s.Sound d) (x : Step) :
    (s.step host x).2.Sound d :=
  sound_iff_inOrder.2
    ((Custody.ofDiscipline hd hhost s.machine.extent).step (le_refl _)
      (sound_iff_inOrder.1 hs) x)

/-- The handles of all states are in order. -/
theorem Reachable.sound
    {host : Host} (hhost : host.Obeys .handles)
    {s : Session} (h : Reachable host s) :
    s.Sound .handles := by
  induction h with
  | initial => exact initial_sound
  | step x _ ih => exact step_sound Discipline.handles_ofHandles hhost ih x

end Session

end Curried
