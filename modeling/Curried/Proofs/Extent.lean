import Curried.Proofs.Congruence
import Mathlib.Order.Defs.PartialOrder

/-!
# How far a machine has come

**Extents.**  Values and frames are numbered in the order in which they are
made.  The `Extent` of a machine says how many of either have been made, and so
which numbers may be about.

**Growth.**  `EvalM.Grows x` says that every run of `x` that ends, with a value
or with an error, has made more or nothing, and has left every function body
that it entered.

**Results.**
* `callValue_grows`, `evalTree_grows`, `action_grows`: all that is done on a
  machine is of this sort.
-/

namespace Curried

/-- How many values and how many frames have been made. -/
structure Extent where
  made : Nat
  frames : Nat
deriving DecidableEq

instance : Preorder Extent where
  le := fun w w' => w.made ≤ w'.made ∧ w.frames ≤ w'.frames
  le_refl := fun _ => ⟨Nat.le_refl _, Nat.le_refl _⟩
  le_trans := fun _ _ _ h h' => ⟨Nat.le_trans h.1 h'.1, Nat.le_trans h.2 h'.2⟩

/-- How many values and how many frames a machine has made. -/
def Machine.extent (m : Machine) : Extent :=
  ⟨m.made, m.store.frames.size⟩

/-- Nothing that was made is gone, and as many bodies are under evaluation as
before. -/
structure Machine.Grown (m m' : Machine) : Prop where
  extent : m.extent ≤ m'.extent
  depth : m'.depth = m.depth

namespace Machine.Grown

variable {m m' m'' : Machine}

theorem refl (m : Machine) : m.Grown m :=
  ⟨le_refl _, rfl⟩

theorem trans
    (h : m.Grown m') (h' : m'.Grown m'') :
    m.Grown m'' :=
  ⟨h.extent.trans h'.extent, h'.depth.trans h.depth⟩

end Machine.Grown

/-- Every run that ends has made more or nothing, and has left what it
entered. -/
def EvalM.Grows {α : Type} (x : EvalM α) : Prop :=
  ∀ ⦃m : Machine⦄ ⦃r : Except EvalError α⦄ ⦃m' : Machine⦄, x m = some (r, m') →
    m.Grown m'

namespace EvalM.Grows

variable {α β : Type}

/-- A computation that makes nothing. -/
theorem of_same
    {x : EvalM α}
    (hx : ∀ m r m', x m = some (r, m') → m'.extent = m.extent ∧
      m'.depth = m.depth) :
    x.Grows := by
  intro m r m' h
  obtain ⟨hextent, hdepth⟩ := hx m r m' h
  exact ⟨hextent.ge, hdepth⟩

theorem bind
    {x : EvalM α} {f : α → EvalM β}
    (hx : x.Grows) (hf : ∀ a, (f a).Grows) :
    (x >>= f).Grows := by
  intro m r m' h
  rcases bind_eq_some h with ⟨e, he, -⟩ | ⟨a, mid, ha, hrest⟩
  · exact hx he
  · exact (hx ha).trans (hf a hrest)

theorem attempt
    {x : EvalM α}
    (hx : x.Grows) :
    x.attempt.Grows := by
  intro m r m' h
  obtain ⟨r', hrun, -⟩ := attempt_eq_some h
  exact hx hrun

theorem nested
    {body : EvalM α}
    (hbody : body.Grows) :
    body.nested.Grows := by
  intro m r m' h
  rcases nested_eq_some h with ⟨-, -, rfl⟩ | ⟨-, last, hrun, rfl⟩
  · exact .refl _
  · obtain ⟨hextent, hdepth⟩ := hbody hrun
    exact ⟨hextent,
      by rw [Machine.record, hdepth]; exact Nat.add_sub_cancel m.depth 1⟩

/-- Growing is a congruence. -/
def congruence : Congruence where
  rel := fun x _ => x.Grows
  pure := fun _ => of_same fun _ _ _ h => by cases h; exact ⟨rfl, rfl⟩
  fail := fun _ => of_same fun _ _ _ h => by cases h; exact ⟨rfl, rfl⟩
  bind := bind
  attempt := attempt
  lookup := fun _ _ => of_same fun _ _ _ h => by cases h; exact ⟨rfl, rfl⟩
  record := fun _ _ _ => of_same fun _ _ _ h => by cases h; exact ⟨rfl, rfl⟩
  write := fun _ => of_same fun _ _ _ h => by cases h; exact ⟨rfl, rfl⟩
  fresh :=
    fun m _ _ h => by cases h; exact ⟨⟨Nat.le_succ m.made, Nat.le_refl _⟩, rfl⟩
  define := fun _ _ _ => of_same fun m _ _ h => by
    cases h
    exact ⟨congrArg (Extent.mk m.made) (Array.size_modify ..), rfl⟩

end EvalM.Grows

section Runs

variable (host : Host) (n : Nat)

theorem callValue_grows
    (tag : String) (callee argument : Value) :
    (callValue host n tag callee argument).Grows := by
  refine EvalM.Grows.congruence.callValue ?_ EvalM.Grows.nested ?_ host n tag
    callee argument
  · intro scope name value m r m' h
    cases h
    refine ⟨⟨Nat.le_refl _, ?_⟩, rfl⟩
    simp [Machine.extent, Store.pushChild, Store.push]
  · intro m r m' h
    cases h

theorem evalTree_grows
    (table : Table) (scope : Scope) (t : Tree) :
    (evalTree host (callValue host n) table scope t).Grows := by
  have hcall : ∀ tag callee argument, EvalM.Grows.congruence.rel
      (callValue host n tag callee argument)
        (callValue host n tag callee argument) :=
    callValue_grows host n
  exact EvalM.Grows.congruence.evalTree hcall host table scope t

theorem action_grows
    (a : Action) :
    (a.run (callValue host n)).Grows := by
  have hcall : ∀ tag callee argument, EvalM.Grows.congruence.rel
      (callValue host n tag callee argument)
        (callValue host n tag callee argument) :=
    callValue_grows host n
  exact EvalM.Grows.congruence.action hcall a

end Runs

end Curried
