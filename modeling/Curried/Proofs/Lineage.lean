import Curried.Proofs.Moves

/-!
# Handles and indices in every state

Whatever is done in a session, its frames hang together, its handles lead to
frames, and every function that is about has a parameter to wait for.

**Indices.**  A `function` node makes a function with the parameters of the
node, none of which has been supplied.  Each call but the last makes another
function with the same parameters, of which one more has been supplied.  The
call reads the parameter with that index.  An index that is out of range is
conceivable, for a `Closure` is just a list and a number; `Discipline.waits`
says that none is about, and each step that makes a function keeps it so.

**Holding.**  `Session.Holds c s` says that the function `c` is about: in a
frame, in a register, where results are kept, or in either of them inside a host
function that has received it.

**Result.**  `Session.reachable_invariant`.
-/

namespace Curried

/-- Handles are in order, and functions have a parameter to wait for. -/
def Discipline.waits : Discipline where
  node := fun n scope _ => scope.index < n
  function := fun n c => c.scope.index < n ∧ c.next < c.params.length
  parent := fun n scope => scope.index < n
  error := fun _ => True
  node_mono := @Discipline.node_mono .handles
  function_mono := fun hnk h => ⟨Nat.lt_of_lt_of_le h.1 hnk, h.2⟩
  node_parts := fun h _ => h
  node_fail := fun _ _ => trivial
  node_define := fun h _ _ => ⟨h, Nat.succ_pos _⟩
  function_parent := fun h => h.1
  function_receive := by
    rintro n c ⟨-, hwaits⟩ hmore
    -- one parameter is left to wait for, since it was not the last one that has
    -- been supplied
    have hnext : c.next + 1 < c.params.length :=
      Nat.lt_of_le_of_ne hwaits (mt c.next_succ_eq_length_iff.1 hmore)
    exact ⟨Nat.lt_succ_self n, hnext⟩
  function_enter := fun _ _ => Nat.lt_succ_self _
  error_dynamic := fun _ => trivial

theorem Discipline.waits_ofHandles : Discipline.waits.OfHandles where
  node := fun h => h
  parent := Iff.rfl
  function := fun h => h.1

theorem Host.standard_obeys_waits : Host.standard.Obeys .waits :=
  Host.standard_obeys fun _ _ _ _ _ => trivial

/-- The value is the function, or a host function that has received, somewhere,
the function. -/
inductive Value.Holds (c : Closure) : Value → Prop
  | function (id : Nat) : Holds c (.function id c)
  | builtin {received : List Value} {v : Value} (id : Nat) (name : String) :
      v ∈ received → Holds c v → Holds c (.builtin id name received)

theorem Value.Obeys.function_of_holds
    {d : Discipline} {n : Nat} {c : Closure} {v : Value}
    (hv : v.Obeys d n) (hc : v.Holds c) :
    d.function n c := by
  induction hc with
  | function id =>
      cases hv with
      | function _ h => exact h
  | builtin id name hmem _ ih =>
      cases hv with
      | builtin _ _ h => exact ih (h _ hmem)

/-- The function is about: in a frame or in a register. -/
inductive Session.Holds (c : Closure) (s : Session) : Prop
  | frame {scope : Scope} {f : Frame} {x : String} {v : Value} :
      s.machine.store.frame? scope = some f → f.bindings[x]? = some v →
      v.Holds c → Holds c s
  | register {name : String} {v : Value} :
      s.values[name]? = some v → v.Holds c → Holds c s

theorem Session.Sound.function_of_holds
    {d : Discipline} {s : Session} {c : Closure}
    (hs : s.Sound d) (hc : s.Holds c) :
    d.function s.machine.store.frames.size c := by
  cases hc with
  | frame hf hv hc => exact (hs.store.value hf hv).function_of_holds hc
  | register hv hc => exact (hs.values hv).function_of_holds hc

/-- **What holds in every state.**  Whatever moves a session has made, with a
host that makes up no functions: every frame was made after its parent, which is
a frame as well, so that the way to the root is finite; the search for a name
ends, from every frame; all named scopes have a frame; and every function that
is about has captured a scope with a frame, and fewer of its parameters have
been supplied than it has.  So it waits for one argument at least, and a call of
it reads a parameter that is there. -/
theorem Session.reachable_invariant
    {host : Host} (hhost : host.Obeys .waits)
    {s : Session} (h : s.Arises host) :
    (∀ (scope parent : Scope) (f : Frame),
      s.machine.store.frame? scope = some f → f.parent = some parent →
      parent.index < scope.index ∧ ∃ g, s.machine.store.frame? parent = some g) ∧
    (∀ (scope : Scope) (f : Frame), s.machine.store.frame? scope = some f →
      ∀ x, s.machine.store.Finds x scope (s.machine.store.lookup scope x)) ∧
    (∀ (name : String) (scope : Scope), s.scopes[name]? = some scope →
      ∃ f, s.machine.store.frame? scope = some f) ∧
    ∀ c : Closure, s.Holds c →
      (∃ f, s.machine.store.frame? c.scope = some f) ∧
      c.next < c.params.length ∧ c.parameters = c.params.drop c.next ∧ 1 ≤ c.arity ∧
      c.params[c.next]? = some c.parameter := by
  have hs := h.sound Discipline.waits_ofHandles hhost
  have hindex : ∀ {scope : Scope} {f : Frame},
      s.machine.store.frame? scope = some f →
      scope.index < s.machine.store.frames.size :=
    fun hf => (Array.getElem?_eq_some_iff.1 hf).1
  refine ⟨?_, ?_, ?_, ?_⟩
  · intro scope parent f hf hparent
    have hless : parent.index < scope.index := hs.store.parent hf hparent
    exact ⟨hless, Store.exists_frame (Nat.lt_trans hless (hindex hf))⟩
  · intro scope f hf x
    exact Store.finds_lookup (Discipline.waits_ofHandles.store hs.store)
      (hindex hf) x
  · intro name scope hscope
    exact Store.exists_frame (hs.scopes hscope)
  · intro c hc
    obtain ⟨hscope, hwaits⟩ := hs.function_of_holds hc
    exact ⟨Store.exists_frame hscope, hwaits, rfl, Nat.sub_pos_of_lt hwaits,
      Closure.getElem?_next hwaits⟩

/-- The function that the host function in a register has received. -/
def Session.received? (s : Session) (register : String) : Option Closure :=
  match s.values[register]? with
  | some (.builtin _ _ [v]) => v.closure?
  | _ => none

theorem Session.holds_of_received?
    {s : Session} {register : String} {c : Closure}
    (h : s.received? register = some c) :
    s.Holds c := by
  unfold received? at h
  split at h
  · rename_i id name v hv
    cases v with
    | function id' c' =>
        cases h
        exact .register hv (.builtin id name List.mem_cons_self (.function id'))
    | _ => cases h
  · cases h

/-- A function of three parameters receives one argument, and a host function
receives the outcome.  The scope that the outcome has captured is emptied in
between. -/
def lineageMoves : List Move :=
  [.step (.eval "f x y z = x; g = f 1" "main" none (some "g")),
    .step (.captured (.register "g") "inner"),
    .step (.clear "inner"),
    .step (.call (.builtin "const") (.register "g") (some "k"))]

theorem lineageMoves_keep_index :
    ∃ (s : Session) (c : Closure), s.Arises Host.standard ∧ s.Holds c ∧
      c.params = ["x", "y", "z"] ∧ c.next = 1 ∧ c.parameters = ["y", "z"] ∧
      c.parameter = "y" ∧
      (∃ f, s.machine.store.frame? c.scope = some f) ∧
      c.next < c.params.length := by
  have hlast : ∀ s,
      lineageMoves.foldl (fun s x => (s.move Host.standard x).2)
        Session.initial = s →
      s.Arises Host.standard ∧
        (s.received? "k").map (fun c => (c.params, c.next)) =
          some (["x", "y", "z"], 1) := by
    rintro s rfl
    exact ⟨.move _ (.move _ (.move _ (.move _ .initial))), by decide +kernel⟩
  obtain ⟨harises, hreceived⟩ := hlast _ rfl
  obtain ⟨c, hc, hindex⟩ := Option.map_eq_some_iff.1 hreceived
  obtain ⟨hparams, hnext⟩ := Prod.mk.inj hindex
  have hholds := Session.holds_of_received? hc
  obtain ⟨-, -, -, hfunctions⟩ :=
    Session.reachable_invariant Host.standard_obeys_waits harises
  obtain ⟨hframe, hwaits, hparameters, -, hparameter⟩ := hfunctions c hholds
  rw [hparams, hnext] at hparameters hparameter
  exact ⟨_, c, harises, hholds, hparams, hnext, hparameters,
    (Option.some.inj hparameter).symm, hframe, hwaits⟩

end Curried
