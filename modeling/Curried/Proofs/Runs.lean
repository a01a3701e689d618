import Curried.Interpreter
import Mathlib.Order.Defs.Unbundled

/-!
# Runs of computations

**Sequences.**  From a run of a sequence of two computations that ended, the run
of the first one, and the run of the second one unless the first failed; and the
run of a sequence from a run of the first one.  Sequences of trees are taken
apart by `evalEach_append`.

**Changes of the store.**  `EvalM.Within P x` says that every run of `x` that
ends, with a value or with an error, changes the store in a way that `P`
admits.  For a preorder `P` this is kept by every way of putting computations
together, and by whatever a host function does if it is kept by the calls that
the function makes.

**Interpretations.**  From an interpretation that failed, the run of the
evaluation.
-/

namespace Curried

namespace EvalM

variable {α β : Type}

theorem bind_eq_some
    {x : EvalM α} {f : α → EvalM β} {m m' : Machine} {r : Except EvalError β}
    (h : (x >>= f) m = some (r, m')) :
    (∃ e, x m = some (.error e, m') ∧ r = .error e) ∨
      ∃ a mid, x m = some (.ok a, mid) ∧ f a mid = some (r, m') := by
  change andThen x f m = some (r, m') at h
  unfold andThen at h
  split at h
  · cases h
  · rename_i e mid hx
    cases h
    exact Or.inl ⟨e, hx, rfl⟩
  · rename_i a mid hx
    exact Or.inr ⟨a, mid, hx, h⟩

theorem bind_of_ok
    {x : EvalM α} {f : α → EvalM β} {m mid : Machine} {a : α}
    (h : x m = some (.ok a, mid)) :
    (x >>= f) m = f a mid := by
  change andThen x f m = f a mid
  rw [andThen, h]

theorem bind_of_error
    {x : EvalM α} {f : α → EvalM β} {m m' : Machine} {e : EvalError}
    (h : x m = some (.error e, m')) :
    (x >>= f) m = some (.error e, m') := by
  change andThen x f m = some (.error e, m')
  rw [andThen, h]

theorem bind_of_none
    {x : EvalM α} {f : α → EvalM β} {m : Machine}
    (h : x m = none) :
    (x >>= f) m = none := by
  change andThen x f m = none
  rw [andThen, h]

theorem bind_assoc
    {γ : Type} (x : EvalM α) (f : α → EvalM β) (g : β → EvalM γ) :
    x >>= f >>= g = x >>= fun a => f a >>= g := by
  funext m
  change andThen (andThen x f) g m = andThen x (fun a => andThen (f a) g) m
  unfold andThen
  rcases x m with _ | ⟨_ | a, mid⟩ <;> rfl

theorem pure_bind
    (a : α) (f : α → EvalM β) :
    (pure a >>= f) = f a := by
  rfl

theorem bind_pure
    (x : EvalM α) :
    (x >>= fun a => pure a) = x := by
  funext m
  change andThen x succeed m = x m
  unfold andThen succeed
  rcases x m with _ | ⟨_ | a, mid⟩ <;> rfl

theorem attempt_eq_some
    {x : EvalM α} {m m' : Machine} {r : Except EvalError (Except EvalError α)}
    (h : x.attempt m = some (r, m')) :
    ∃ r', x m = some (r', m') ∧ r = .ok r' := by
  unfold attempt at h
  split at h
  · cases h
  · rename_i r' mid hx
    cases h
    exact ⟨r', hx, rfl⟩

/-- A body that is entered and ends. -/
theorem nested_of_open
    {body : EvalM α} {m m' : Machine} {r : Except EvalError α}
    (hdepth : m.depth < recursionLimit)
    (h : body ({ m with depth := m.depth + 1 }.record .enter) = some (r, m')) :
    nested body m =
      some (r, Machine.record { m' with depth := m'.depth - 1 } .leave) := by
  have hattempt : attempt body ({ m with depth := m.depth + 1 }.record .enter) =
      some (.ok r, m') := by
    rw [attempt, h]
  unfold nested
  rw [bind_of_ok (x := gets Machine.depth) rfl, if_neg (Nat.not_le.2 hdepth),
    bind_of_ok (x := enter) rfl]
  refine (bind_of_ok hattempt).trans ?_
  refine (bind_of_ok (x := leave) rfl).trans ?_
  cases r <;> rfl

/-- A body that is not entered, whatever it is. -/
theorem nested_of_full
    {m : Machine}
    (hdepth : recursionLimit ≤ m.depth) (body : EvalM α) :
    nested body m = some (.error .recursionLimit, m) := by
  unfold nested
  rw [bind_of_ok (x := gets Machine.depth) rfl, if_pos hdepth]
  rfl

/-- A body that is not to end does not end. -/
theorem nested_of_none
    {body : EvalM α} {m : Machine}
    (hdepth : m.depth < recursionLimit)
    (h : body ({ m with depth := m.depth + 1 }.record .enter) = none) :
    nested body m = none := by
  have hattempt : attempt body ({ m with depth := m.depth + 1 }.record .enter) =
      none := by
    rw [attempt, h]
  unfold nested
  rw [bind_of_ok (x := gets Machine.depth) rfl, if_neg (Nat.not_le.2 hdepth),
    bind_of_ok (x := enter) rfl]
  exact bind_of_none hattempt

/-- How a body ends: it was not entered at all, or it was entered, ended and was
left. -/
theorem nested_eq_some
    {body : EvalM α} {m m' : Machine} {r : Except EvalError α}
    (h : nested body m = some (r, m')) :
    (recursionLimit ≤ m.depth ∧ r = .error .recursionLimit ∧ m' = m) ∨
      m.depth < recursionLimit ∧ ∃ last,
        body ({ m with depth := m.depth + 1 }.record .enter) = some (r, last) ∧
        m' = Machine.record { last with depth := last.depth - 1 } .leave := by
  by_cases hdepth : recursionLimit ≤ m.depth
  · rw [nested_of_full hdepth] at h
    cases h
    exact Or.inl ⟨hdepth, rfl, rfl⟩
  · have hopen : m.depth < recursionLimit := Nat.lt_of_not_le hdepth
    refine Or.inr ⟨hopen, ?_⟩
    cases hbody : body ({ m with depth := m.depth + 1 }.record .enter) with
    | none =>
        rw [nested_of_none hopen hbody] at h
        cases h
    | some o =>
        obtain ⟨r', last⟩ := o
        rw [nested_of_open hopen hbody] at h
        cases h
        exact ⟨last, rfl, rfl⟩

/-- Every run of `x` that ends changes the store in a way that `P` admits. -/
def Within (P : Store → Store → Prop) (x : EvalM α) : Prop :=
  ∀ ⦃m : Machine⦄ ⦃r : Except EvalError α⦄ ⦃m' : Machine⦄,
    x m = some (r, m') → P m.store m'.store

namespace Within

variable {P Q : Store → Store → Prop}

theorem mono
    {x : EvalM α}
    (hx : Within P x) (hPQ : ∀ s s', P s s' → Q s s') :
    Within Q x :=
  fun m _ m' h => hPQ m.store m'.store (hx h)

theorem attempt
    {x : EvalM α}
    (hx : Within P x) :
    Within P x.attempt := by
  intro m r m' h
  obtain ⟨r', hm, -⟩ := attempt_eq_some h
  exact hx hm

variable [IsPreorder Store P]

/-- A computation that leaves the store alone. -/
theorem of_same
    {x : EvalM α}
    (hx : ∀ m r m', x m = some (r, m') → m'.store = m.store) :
    Within P x := by
  intro m r m' h
  rw [hx m r m' h]
  exact refl_of P m.store

theorem pure (a : α) : Within P (pure a : EvalM α) :=
  of_same fun _ _ _ h => by cases h; rfl

theorem fail (e : EvalError) : Within P (fail e : EvalM α) :=
  of_same fun _ _ _ h => by cases h; rfl

theorem ofExcept (x : Except EvalError α) : Within P (ofExcept x) := by
  cases x with
  | ok a => exact pure a
  | error e => exact fail e

theorem gets (f : Machine → α) : Within P (gets f) :=
  of_same fun _ _ _ h => by cases h; rfl

theorem update
    {f : Machine → Machine}
    (hf : ∀ m, (f m).store = m.store) :
    Within P (update f) :=
  of_same fun m _ _ h => by cases h; exact hf m

theorem record (e : Happening) : Within P (record e) :=
  update fun _ => rfl

theorem bind
    {x : EvalM α} {f : α → EvalM β}
    (hx : Within P x) (hf : ∀ a, Within P (f a)) :
    Within P (x >>= f) := by
  intro m r m' h
  rcases bind_eq_some h with ⟨e, hm, -⟩ | ⟨a, mid, hm, hr⟩
  · exact hx hm
  · exact trans_of P (hx hm) (hf a hr)

theorem fresh : Within P fresh :=
  of_same fun _ _ _ h => by cases h; rfl

theorem makeFunction (c : Closure) : Within P (makeFunction c) :=
  bind fresh fun _ => pure _

/-- Counting function bodies does not touch the store. -/
theorem nested
    {body : EvalM α}
    (hbody : Within P body) :
    Within P (nested body) := by
  unfold EvalM.nested
  refine bind (gets _) fun depth => ?_
  split
  · exact fail _
  · refine bind (update fun _ => rfl) fun _ => ?_
    refine bind hbody.attempt fun result => ?_
    exact bind (update fun _ => rfl) fun _ => ofExcept result

/-- What a host function does to the store is done by the calls it makes. -/
theorem action
    {call : Caller}
    (hcall : ∀ tag callee argument, Within P (call tag callee argument))
    (a : Action) :
    Within P (a.run call) := by
  induction a with
  | give v =>
      exact pure v
  | fail e =>
      exact fail e
  | call callee argument next ih =>
      exact bind (hcall _ callee argument).attempt ih
  | write line next ih =>
      exact bind (update fun _ => rfl) fun _ => ih
  | make blueprint next ih =>
      exact bind (bind fresh fun _ => pure _) ih

theorem lookupName
    (scope : Scope) (name : String) :
    Within P (lookupName scope name) := by
  refine bind (gets _) fun found => ?_
  cases found with
  | some v => exact pure v
  | none => exact fail _

theorem applyOperator
    {call : Caller}
    (hcall : ∀ tag callee argument, Within P (call tag callee argument))
    (host : Host) (table : Table) (symbol : String) (left right : Value) :
    Within P (applyOperator host call table symbol left right) := by
  unfold Curried.applyOperator
  split
  · exact action hcall _
  · split
    · exact fail _
    · exact hcall _ left right
    · exact ofExcept _

end Within

end EvalM

/-- Evaluating one list of trees and then another is evaluating both in a
row. -/
theorem evalEach_append
    (host : Host) (call : Caller) (table : Table) (scope : Scope) :
    ∀ (ts us : List Tree) (last : Value),
      evalEach host call table scope (ts ++ us) last =
        evalEach host call table scope ts last >>= evalEach host call table scope us
  | [], us, last => by
      rw [evalEach]
      rfl
  | t :: ts, us, last => by
      rw [List.cons_append, evalEach, evalEach, EvalM.bind_assoc]
      congr 1
      funext v
      exact evalEach_append host call table scope ts us v

section Calls

variable (host : Host) (n : Nat) (tag : String) (id : Nat) {c : Closure}
  (argument : Value) (m : Machine)

/-- The last argument: a frame is made, and the body is entered unless the limit
forbids it. -/
theorem callValue_last
    (hlast : c.arity = 1) :
    callValue host (n + 1) tag (.function id c) argument m =
      EvalM.nested (evalTree host (callValue host n) c.table m.store.next c.body)
        { m with store := m.store.pushChild c.scope c.parameter argument } := by
  rw [callValue]
  refine (EvalM.bind_of_ok (x := EvalM.extendScope c.scope c.parameter argument)
    rfl).trans ?_
  rw [if_pos (c.next_succ_eq_length_iff.2 hlast)]

/-- Any other argument: a frame is made, and a function that waits for one
argument less. -/
theorem callValue_stage
    (hmore : c.arity ≠ 1) :
    callValue host (n + 1) tag (.function id c) argument m =
      EvalM.makeFunction (c.advance m.store.next)
        { m with store := m.store.pushChild c.scope c.parameter argument } := by
  rw [callValue]
  refine (EvalM.bind_of_ok (x := EvalM.extendScope c.scope c.parameter argument)
    rfl).trans ?_
  rw [if_neg (mt c.next_succ_eq_length_iff.1 hmore)]

end Calls

/-- The error of the evaluation, if that is what an interpretation ended
with. -/
def failure? : Except InterpretError Value → Option EvalError
  | .error (.failed e) => some e
  | _ => none

theorem eq_failed_of_failure?
    {outcome : Except InterpretError Value} {e : EvalError}
    (h : failure? outcome = some e) :
    outcome = .error (.failed e) := by
  unfold failure? at h
  split at h
  · rw [Option.some.inj h]
  · cases h

/-- An interpretation that fails in the evaluation. -/
theorem evaluate_of_runSource
    {host : Host} {table : Table} {scope : Scope} {source : String} {t : Tree}
    {m m' : Machine} {e : EvalError}
    (hparse : parse source = .ok t)
    (hrun : runSource host table scope source m = (.error (.failed e), m')) :
    evaluate host table scope t m = some (.error e, m') := by
  rw [runSource, hparse] at hrun
  dsimp only [runTree] at hrun
  split at hrun
  · cases hrun
  · rename_i h
    cases hrun
    exact h
  · cases hrun

end Curried
