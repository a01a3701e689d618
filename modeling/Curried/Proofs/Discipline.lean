import Curried.Proofs.Plan
import Curried.Proofs.Runs
import Curried.Proofs.StoreGrowth

/-!
# Disciplines

Which trees are evaluated, which functions are about and which errors are
raised, said once for all evaluations.

**Disciplines.**  A `Discipline` names the trees that may be evaluated, the
functions that may be about, the parents that frames may have and the errors
that may be raised, and has one law for each way in which an evaluation comes
from one to the other: from a node to its parts, from a `function` node to the
function, from a function to its body.  What is admitted may depend on the
number of frames made so far, and once admitted it stays so.

**Hosts.**  A host obeys a discipline if it hands out nothing that the
discipline does not admit as long as it is handed nothing of the sort.

**Results.**
* `evalTree_obeys`, `callValue_obeys`: evaluations and calls keep to every
  discipline that the host obeys.
* `runTree_covers`, `runSource_covers`: so do interpretations.
* `Host.standard_obeys`: the standard host obeys whatever admits the errors that
  it raises.
-/

namespace Curried

/-- The errors that come from what a program does and not from the shape of its
tree. -/
inductive EvalError.IsDynamic : EvalError → Prop
  | unknownOperator (symbol : String) : IsDynamic (.unknownOperator symbol)
  | operands (symbol left right : String) : IsDynamic (.operands symbol left right)
  | undefined (name : String) : IsDynamic (.undefined name)
  | recursionLimit : IsDynamic .recursionLimit
  | notCallable {tag : String} (typeName : String) :
      tag ∈ ["apply", "infix"] → IsDynamic (.notCallable tag typeName)

/-- What may be about where `n` frames have been made. -/
structure Discipline where
  /-- The trees that may be evaluated in a scope. -/
  node : (n : Nat) → Scope → Tree → Prop
  /-- The functions that may be about. -/
  function : (n : Nat) → Closure → Prop
  /-- The parents that frame number `n` may have. -/
  parent : (n : Nat) → Scope → Prop
  /-- The errors that may be raised. -/
  error : EvalError → Prop
  node_mono : ∀ {n k : Nat} {scope : Scope} {t : Tree}, n ≤ k → node n scope t →
    node k scope t
  function_mono : ∀ {n k : Nat} {c : Closure}, n ≤ k → function n c → function k c
  node_parts : ∀ {n : Nat} {scope : Scope} {t c : Tree}, node n scope t →
    c ∈ t.plan.parts → node n scope c
  node_fail : ∀ {n : Nat} {scope : Scope} {t : Tree} {e : EvalError},
    node n scope t → t.plan = .fail e → error e
  node_define : ∀ {n : Nat} {scope : Scope} {t : Tree} {name parameter : String}
    {others : List String} {body : Tree},
    node n scope t → t.plan = .define name parameter others body →
    ∀ table, function n ⟨name, parameter :: others, 0, body, scope, table⟩
  function_parent : ∀ {n : Nat} {c : Closure}, function n c → parent n c.scope
  function_receive : ∀ {n : Nat} {c : Closure},
    function n c → c.arity ≠ 1 → function (n + 1) (c.advance ⟨n⟩)
  function_enter : ∀ {n : Nat} {c : Closure}, function n c → c.arity = 1 →
    node (n + 1) ⟨n⟩ c.body
  error_dynamic : ∀ {e : EvalError}, e.IsDynamic → error e

variable {α β : Type} {d : Discipline}

/-- All functions that a value hands along are admitted. -/
inductive Value.Obeys (d : Discipline) (n : Nat) : Value → Prop
  | unit : Obeys d n .unit
  | number (x : Float) : Obeys d n (.number x)
  | text (s : String) : Obeys d n (.text s)
  | foreign (id : Nat) (parcel : Parcel) : Obeys d n (.foreign id parcel)
  | function {c : Closure} (id : Nat) : d.function n c → Obeys d n (.function id c)
  | builtin {received : List Value} (id : Nat) (name : String) :
      (∀ v ∈ received, Obeys d n v) → Obeys d n (.builtin id name received)

theorem Value.Obeys.imp
    {d' : Discipline} {n k : Nat} {v : Value}
    (h : v.Obeys d n) (himp : ∀ c, d.function n c → d'.function k c) :
    v.Obeys d' k := by
  induction h with
  | unit => exact .unit
  | number x => exact .number x
  | text s => exact .text s
  | foreign id parcel => exact .foreign id parcel
  | function id hc => exact .function id (himp _ hc)
  | builtin id name _ ih => exact .builtin id name ih

theorem Value.Obeys.mono
    {n k : Nat} {v : Value}
    (h : v.Obeys d n) (hnk : n ≤ k) :
    v.Obeys d k :=
  h.imp fun _ => d.function_mono hnk

/-- The outcome is an admitted error or a value of which `V` holds. -/
def Discipline.Admits (d : Discipline) (V : Nat → α → Prop) (n : Nat) :
    Except EvalError α → Prop
  | .ok a => V n a
  | .error e => d.error e

theorem Discipline.Admits.mono
    {n k : Nat} {r : Except EvalError Value}
    (h : d.Admits (fun k v => v.Obeys d k) n r) (hnk : n ≤ k) :
    d.Admits (fun k v => v.Obeys d k) k r := by
  cases r with
  | ok v => exact Value.Obeys.mono h hnk
  | error e => exact h

/-- A host function hands out nothing that is not admitted as long as it is
handed nothing of the sort. -/
def Action.Obeys (d : Discipline) : Action → Nat → Prop
  | .give v, n => v.Obeys d n
  | .fail e, _ => d.error e
  | .call callee argument next, n =>
      callee.Obeys d n ∧ argument.Obeys d n ∧
        ∀ k outcome, n ≤ k → d.Admits (fun k v => v.Obeys d k) k outcome →
          Obeys d (next outcome) k
  | .write _ next, n => Obeys d next n
  | .make blueprint next, n => ∀ id, Obeys d (next (blueprint.value id)) n

/-- A host that hands out nothing that is not admitted as long as it is handed
nothing of the sort. -/
structure Host.Obeys (d : Discipline) (host : Host) : Prop where
  builtin : ∀ {n : Nat} (name : String) {received : List Value} {argument : Value},
    (∀ v ∈ received, v.Obeys d n) → argument.Obeys d n →
      (host.builtin name received argument).Obeys d n
  operator : ∀ {n : Nat} (name symbol : String) {left right : Value},
    left.Obeys d n → right.Obeys d n →
      (host.operator name symbol left right).Obeys d n

/-- All functions in the frames and all parents of frames are admitted. -/
structure Store.Obeys (d : Discipline) (s : Store) : Prop where
  value : ∀ ⦃scope : Scope⦄ ⦃f : Frame⦄ ⦃x : String⦄ ⦃v : Value⦄,
    s.frame? scope = some f → f.bindings[x]? = some v → v.Obeys d s.frames.size
  parent : ∀ ⦃scope parent : Scope⦄ ⦃f : Frame⦄,
    s.frame? scope = some f → f.parent = some parent → d.parent scope.index parent

namespace Store.Obeys

variable {s : Store}

theorem empty : Store.empty.Obeys d where
  value := by simp [Store.empty, Store.frame?]
  parent := by simp [Store.empty, Store.frame?]

theorem push
    (h : s.Obeys d) {f : Frame}
    (hvalue : ∀ ⦃x : String⦄ ⦃v : Value⦄, f.bindings[x]? = some v →
      v.Obeys d (s.frames.size + 1))
    (hparent : ∀ ⦃parent : Scope⦄, f.parent = some parent →
      d.parent s.frames.size parent) :
    (s.push f).Obeys d where
  value := by
    intro scope g x v hg hv
    rw [Store.size_push]
    rw [Store.frame?_push] at hg
    split at hg
    · cases hg
      exact hvalue hv
    · exact (h.value hg hv).mono (Nat.le_succ _)
  parent := by
    intro scope parent g hg hp
    rw [Store.frame?_push] at hg
    split at hg
    · rename_i hscope
      cases hg
      rw [hscope]
      exact hparent hp
    · exact h.parent hg hp

theorem pushRoot
    (h : s.Obeys d) :
    s.pushRoot.Obeys d := by
  refine h.push ?_ ?_
  · intro x v hv
    simp at hv
  · intro parent hp
    cases hp

theorem pushChild
    (h : s.Obeys d) {scope : Scope} {v : Value}
    (hscope : d.parent s.frames.size scope) (hv : v.Obeys d s.frames.size)
    (x : String) :
    (s.pushChild scope x v).Obeys d := by
  refine h.push ?_ ?_
  · intro y w hw
    rcases eq_or_getElem?_of_insert hw with rfl | hw
    · exact hv.mono (Nat.le_succ _)
    · simp at hw
  · intro parent hp
    cases hp
    exact hscope

/-- One frame is changed, but for its parent. -/
theorem modify
    (h : s.Obeys d) (scope : Scope) {g : Frame → Frame}
    (hparent : ∀ f, (g f).parent = f.parent)
    (hvalue : ∀ ⦃f : Frame⦄ ⦃x : String⦄ ⦃v : Value⦄,
      s.frame? scope = some f → (g f).bindings[x]? = some v →
      v.Obeys d s.frames.size) :
    Store.Obeys d ⟨s.frames.modify scope.index g⟩ where
  value := by
    intro other f x v hf hv
    rw [Array.size_modify]
    rw [Store.frame?_modify] at hf
    split at hf
    · obtain ⟨f', hf', rfl⟩ := Option.map_eq_some_iff.1 hf
      exact hvalue hf' hv
    · exact h.value hf hv
  parent := by
    intro other parent f hf hp
    rw [Store.frame?_modify] at hf
    split at hf
    · rename_i hscope
      obtain ⟨f', hf', rfl⟩ := Option.map_eq_some_iff.1 hf
      rw [hparent] at hp
      rw [hscope]
      exact h.parent hf' hp
    · exact h.parent hf hp

theorem define
    (h : s.Obeys d) {v : Value}
    (hv : v.Obeys d s.frames.size) (scope : Scope) (x : String) :
    (s.define scope x v).Obeys d := by
  refine h.modify scope (fun _ => rfl) ?_
  intro f y w hf hw
  rcases eq_or_getElem?_of_insert hw with rfl | hw
  · exact hv
  · exact h.value hf hw

theorem clear
    (h : s.Obeys d) (scope : Scope) :
    (s.clear scope).Obeys d := by
  refine h.modify scope (fun _ => rfl) ?_
  intro f x v _ hv
  simp at hv

/-- What is found by a search is bound in one of the frames. -/
theorem lookupWithin
    (h : s.Obeys d) {x : String} {v : Value} :
    ∀ {n : Nat} {scope : Scope}, s.lookupWithin x n scope = some v →
      v.Obeys d s.frames.size
  | n + 1, scope, hfound => by
      rw [Store.lookupWithin] at hfound
      split at hfound
      · cases hfound
      · rename_i f hf
        split at hfound
        · rename_i w hw
          cases hfound
          exact h.value hf hw
        · split at hfound
          · cases hfound
          · exact h.lookupWithin hfound

theorem lookup
    (h : s.Obeys d) {scope : Scope} {x : String} {v : Value}
    (hfound : s.lookup scope x = some v) :
    v.Obeys d s.frames.size :=
  h.lookupWithin hfound

end Store.Obeys

/-- Run where `n` frames or more have been made, the computation keeps to the
discipline, and `V` holds of the value that it gives. -/
def EvalM.Obeys (d : Discipline) (V : Nat → α → Prop) (n : Nat) (x : EvalM α) : Prop :=
  ∀ ⦃m : Machine⦄ ⦃r : Except EvalError α⦄ ⦃m' : Machine⦄,
    n ≤ m.store.frames.size → m.store.Obeys d → x m = some (r, m') →
    m.store.frames.size ≤ m'.store.frames.size ∧ m'.store.Obeys d ∧
      d.Admits V m'.store.frames.size r

/-- The computation keeps to the discipline, and so does the value that it
gives. -/
abbrev EvalM.GivesObedient (d : Discipline) (n : Nat) (x : EvalM Value) : Prop :=
  x.Obeys d (fun k v => v.Obeys d k) n

/-- Calls that keep to the discipline. -/
def CallsObey (d : Discipline) (call : Caller) : Prop :=
  ∀ ⦃n : Nat⦄ ⦃tag : String⦄ ⦃callee argument : Value⦄,
    tag ∈ ["apply", "infix"] → callee.Obeys d n → argument.Obeys d n →
    (call tag callee argument).GivesObedient d n

namespace EvalM.Obeys

variable {V : Nat → α → Prop} {W : Nat → β → Prop} {n : Nat}

/-- A computation that leaves the store alone. -/
theorem of_same
    {x : EvalM α}
    (hx : ∀ ⦃m r m'⦄, n ≤ m.store.frames.size → m.store.Obeys d →
      x m = some (r, m') →
      m'.store = m.store ∧ d.Admits V m.store.frames.size r) :
    x.Obeys d V n := by
  intro m r m' hn hm h
  obtain ⟨hstore, hr⟩ := hx hn hm h
  rw [hstore]
  exact ⟨Nat.le_refl _, hm, hr⟩

theorem pure
    {a : α}
    (ha : ∀ k, n ≤ k → V k a) :
    (pure a : EvalM α).Obeys d V n := by
  refine of_same ?_
  intro m r m' hn _ h
  cases h
  exact ⟨rfl, ha _ hn⟩

theorem fail
    {e : EvalError}
    (he : d.error e) :
    (EvalM.fail e : EvalM α).Obeys d V n := by
  refine of_same ?_
  intro m r m' _ _ h
  cases h
  exact ⟨rfl, he⟩

theorem bind
    {x : EvalM α} {f : α → EvalM β}
    (hx : x.Obeys d V n)
    (hf : ∀ a k, n ≤ k → V k a → (f a).Obeys d W k) :
    (x >>= f).Obeys d W n := by
  intro m r m' hn hm h
  rcases bind_eq_some h with ⟨e, he, rfl⟩ | ⟨a, mid, ha, hrest⟩
  · exact hx hn hm he
  · obtain ⟨hsize, hmid, hV⟩ := hx hn hm ha
    obtain ⟨hsize', hm', hr⟩ :=
      hf a _ (Nat.le_trans hn hsize) hV (Nat.le_refl _) hmid hrest
    exact ⟨Nat.le_trans hsize hsize', hm', hr⟩

theorem attempt
    {x : EvalM α}
    (hx : x.Obeys d V n) :
    x.attempt.Obeys d (d.Admits V) n := by
  intro m r m' hn hm h
  obtain ⟨r', hrun, rfl⟩ := attempt_eq_some h
  exact hx hn hm hrun

theorem ofExcept
    {r : Except EvalError α}
    (hr : ∀ k, n ≤ k → d.Admits V k r) :
    (EvalM.ofExcept r).Obeys d V n := by
  cases r with
  | ok a => exact pure hr
  | error e => exact fail (hr n (Nat.le_refl n))

theorem gets
    {f : Machine → α}
    (hf : ∀ m : Machine, m.store.Obeys d → V m.store.frames.size (f m)) :
    (EvalM.gets f).Obeys d V n := by
  refine of_same ?_
  intro m r m' _ hm h
  cases h
  exact ⟨rfl, hf m hm⟩

theorem update
    {f : Machine → Machine}
    (hf : ∀ m, (f m).store = m.store) :
    (EvalM.update f).Obeys d (fun _ _ => True) n := by
  refine of_same ?_
  intro m r m' _ _ h
  cases h
  exact ⟨hf m, trivial⟩

theorem record (e : Happening) : (EvalM.record e).Obeys d (fun _ _ => True) n :=
  update fun _ => rfl

theorem fresh : EvalM.fresh.Obeys d (fun _ _ => True) n := by
  refine of_same ?_
  intro m r m' _ _ h
  cases h
  exact ⟨rfl, trivial⟩

theorem makeFunction
    {c : Closure}
    (hc : d.function n c) :
    (EvalM.makeFunction c).GivesObedient d n := by
  refine bind fresh fun id k hk _ => pure ?_
  intro k' hk'
  exact .function id (d.function_mono (Nat.le_trans hk hk') hc)

theorem define
    {v : Value}
    (hv : v.Obeys d n) (scope : Scope) (x : String) :
    (EvalM.define scope x v).Obeys d (fun _ _ => True) n := by
  intro m r m' hn hm h
  cases h
  refine ⟨?_, hm.define (hv.mono hn) scope x, trivial⟩
  exact Nat.le_of_eq (Store.size_define _ _ _ _).symm

/-- A computation may be run later, where more frames have been made. -/
theorem later
    {x : EvalM α} {k : Nat}
    (hx : x.Obeys d V n) (hnk : n ≤ k) :
    x.Obeys d V k :=
  fun _ _ _ hk => hx (Nat.le_trans hnk hk)

theorem nested
    {body : EvalM Value}
    (hbody : body.GivesObedient d n) :
    (EvalM.nested body).GivesObedient d n := by
  unfold EvalM.nested
  refine bind (V := fun _ _ => True) (gets fun _ _ => trivial)
    fun depth k hk _ => ?_
  split
  · exact fail (d.error_dynamic .recursionLimit)
  · refine bind (update fun _ => rfl) fun _ k' hk' _ => ?_
    refine bind (hbody.later (Nat.le_trans hk hk')).attempt
      fun result l _ hresult => ?_
    refine bind (update fun _ => rfl) fun _ l' hl' _ => ofExcept ?_
    intro l'' hl''
    exact hresult.mono (Nat.le_trans hl' hl'')

/-- What a host function does is done by the calls it makes. -/
theorem action
    {call : Caller}
    (hcall : CallsObey d call)
    {a : Action} (ha : a.Obeys d n) :
    (a.run call).GivesObedient d n := by
  induction a generalizing n with
  | give v =>
      exact pure fun k hk => Value.Obeys.mono ha hk
  | fail e =>
      exact fail ha
  | call callee argument next ih =>
      obtain ⟨hcallee, hargument, hnext⟩ := ha
      refine bind (hcall (by simp) hcallee hargument).attempt
        fun outcome k hk houtcome => ?_
      exact ih outcome (hnext k outcome hk houtcome)
  | write line next ih =>
      refine bind (update fun _ => rfl) fun _ k hk _ => ?_
      exact (ih ha).later hk
  | make blueprint next ih =>
      have hmake : blueprint.make.Obeys d (fun _ v => ∃ id,
          v = blueprint.value id) n :=
        bind fresh fun id _ _ _ => pure fun _ _ => ⟨id, rfl⟩
      refine bind hmake fun v k hk hv => ?_
      obtain ⟨id, rfl⟩ := hv
      exact (ih _ (ha id)).later hk

theorem lookupName
    (scope : Scope) (x : String) :
    (lookupName scope x).GivesObedient d n := by
  have hlookup : (EvalM.gets (·.store.lookup scope x)).Obeys d
      (fun k found => ∀ v, found = some v → v.Obeys d k) n :=
    gets fun m hm v hv => hm.lookup hv
  refine bind hlookup fun found k _ hfound => ?_
  cases found with
  | some v => exact pure fun l hl => (hfound v rfl).mono hl
  | none => exact fail (d.error_dynamic (.undefined x))

end EvalM.Obeys

/-- Operators of the language give numbers and texts. -/
theorem Operator.combine_admits
    (o : Operator) (left right : Value) (n : Nat) :
    d.Admits (fun k v => v.Obeys d k) n (o.combine left right) := by
  unfold Operator.combine
  split
  · exact .number _
  · exact .text _
  · exact .text _
  · exact .text _
  · exact .number _
  · exact .number _
  · exact .number _
  · exact d.error_dynamic (.operands _ _ _)

theorem textValue_obeys
    {w : String} {v : Value}
    (h : textValue w = .ok v) (n : Nat) :
    v.Obeys d n := by
  unfold textValue at h
  split at h
  · cases h
    exact .text _
  · cases h

theorem integerValue_obeys
    {w : String} {v : Value}
    (h : integerValue w = .ok v) (n : Nat) :
    v.Obeys d n := by
  unfold integerValue at h
  dsimp only at h
  split at h
  · cases h
  · cases h
    exact .number _

/-- A value that a node stands for by itself is no function. -/
theorem Tree.plan_give_obeys
    {t : Tree} {v : Value}
    (h : t.plan = .give v) (n : Nat) :
    v.Obeys d n := by
  have hp := t.planned
  rw [h] at hp
  cases hp with
  | integer _ _ hv => exact integerValue_obeys hv n
  | text _ _ hv => exact textValue_obeys hv n

section Evaluation

variable {host : Host} {call : Caller} (hhost : host.Obeys d)
  (hcall : CallsObey d call)
include hhost hcall

theorem applyOperator_obeys
    {n : Nat} {left right : Value}
    (hleft : left.Obeys d n) (hright : right.Obeys d n) (table : Table)
    (symbol : String) :
    (applyOperator host call table symbol left right).GivesObedient d n := by
  unfold applyOperator
  split
  · exact .action hcall (hhost.operator _ symbol hleft hright)
  · split
    · exact .fail (d.error_dynamic (.unknownOperator symbol))
    · exact hcall (by simp) hleft hright
    · exact .ofExcept fun k _ => Operator.combine_admits _ left right k

omit hhost hcall in
theorem evalEach_obeys
    {table : Table} {scope : Scope} :
    ∀ (ts : List Tree) {n : Nat} {last : Value},
      (∀ t ∈ ts, ∀ k, n ≤ k →
        (evalTree host call table scope t).GivesObedient d k) → last.Obeys d n →
      (evalEach host call table scope ts last).GivesObedient d n
  | [], n, last, _, hlast => by
      rw [evalEach]
      exact .pure fun k hk => hlast.mono hk
  | t :: ts, n, last, h, _ => by
      rw [evalEach]
      refine .bind (h t (by simp) n (Nat.le_refl n)) fun v k hk hv => ?_
      exact evalEach_obeys ts (fun t' ht' l hl =>
        h t' (by simp [ht']) l (Nat.le_trans hk hl)) hv

/-- Evaluations keep to every discipline that the host and the calls obey. -/
theorem evalTree_obeys
    {n : Nat} {scope : Scope} (t : Tree)
    (ht : d.node n scope t) (table : Table) :
    (evalTree host call table scope t).GivesObedient d n := by
  induction t using Tree.plan_induction generalizing n with
  | step t ih =>
      have hparts : ∀ c ∈ t.plan.parts, ∀ k, n ≤ k →
          (evalTree host call table scope c).GivesObedient d k :=
        fun c hc k hk => ih c hc (d.node_mono hk (d.node_parts ht hc))
      rw [evalTree_eq_plan]
      refine .bind (.record _) fun _ k hk _ => ?_
      cases hplan : t.plan with
      | fail e =>
          exact .fail (d.node_fail ht hplan)
      | give v =>
          exact .pure fun l _ => Tree.plan_give_obeys hplan l
      | look name =>
          exact .lookupName scope name
      | sequence ts =>
          rw [hplan] at hparts
          exact evalEach_obeys ts (fun c hc l hl =>
            hparts c hc l (Nat.le_trans hk hl)) .unit
      | define name parameter others body =>
          have hfunction := d.function_mono hk (d.node_define ht hplan table)
          refine .bind (.record _) fun _ l hl _ => ?_
          refine .bind (.makeFunction (d.function_mono hl hfunction))
            fun v l' _ hv => ?_
          exact .bind (.define hv scope name) fun _ l'' hl'' _ =>
            .pure fun _ h => hv.mono (Nat.le_trans hl'' h)
      | bind name value =>
          rw [hplan] at hparts
          refine .bind (hparts value (by simp [Plan.parts]) k hk) fun v l _ hv => ?_
          refine .bind (.record _) fun _ l' hl' _ => ?_
          have hv' := hv.mono hl'
          exact .bind (.define hv' scope name) fun _ l'' hl'' _ =>
            .pure fun _ h => hv'.mono (Nat.le_trans hl'' h)
      | operate left symbol right =>
          rw [hplan] at hparts
          refine .bind (hparts left (by simp [Plan.parts]) k hk) fun v l hl hv => ?_
          refine .bind (hparts right (by simp [Plan.parts]) l
            (Nat.le_trans hk hl)) fun w l' hl' hw => ?_
          exact applyOperator_obeys hhost hcall (hv.mono hl') hw table symbol
      | apply function argument =>
          rw [hplan] at hparts
          refine .bind (hparts function (by simp [Plan.parts]) k hk)
            fun v l hl hv => ?_
          refine .bind (hparts argument (by simp [Plan.parts]) l
            (Nat.le_trans hk hl)) fun w l' hl' hw => ?_
          exact hcall (by simp) (hv.mono hl') hw
      | pass inner =>
          rw [hplan] at hparts
          exact hparts inner (by simp [Plan.parts]) k hk

end Evaluation

/-- Calls keep to every discipline that the host obeys. -/
theorem callValue_obeys
    {host : Host} (hhost : host.Obeys d) :
    ∀ allowance : Nat, CallsObey d (callValue host allowance)
  | 0 => by
      intro n tag callee argument _ _ _ m r m' _ _ h
      cases h
  | allowance + 1 => by
      have hcall := callValue_obeys hhost allowance
      intro n tag callee argument htag hcallee hargument
      cases hcallee with
      | unit | number | text | foreign =>
          exact .fail (d.error_dynamic (.notCallable _ htag))
      | builtin id name hreceived =>
          exact .action hcall (hhost.builtin name hreceived hargument)
      | @function c id hc =>
          intro m r m' hn hm h
          have hc' := d.function_mono hn hc
          have hpush : (m.store.pushChild c.scope c.parameter argument).Obeys d :=
            hm.pushChild (d.function_parent hc') (hargument.mono hn) c.parameter
          -- the frame of the argument is the last one that was made
          have hsize :
              m.store.frames.size + 1 ≤
                (m.store.pushChild c.scope c.parameter
                  argument).frames.size := by
            simp
          by_cases hlast : c.arity = 1
          · rw [callValue_last host allowance tag id argument m hlast] at h
            have hbody :=
              evalTree_obeys hhost hcall c.body (d.function_enter hc' hlast)
                c.table
            obtain ⟨hgrown, hm', hr⟩ := hbody.nested hsize hpush h
            exact ⟨Nat.le_of_succ_le (Nat.le_trans hsize hgrown), hm', hr⟩
          · rw [callValue_stage host allowance tag id argument m hlast] at h
            have hmade := EvalM.Obeys.makeFunction (d.function_receive hc' hlast)
            obtain ⟨hgrown, hm', hr⟩ := hmade hsize hpush h
            exact ⟨Nat.le_of_succ_le (Nat.le_trans hsize hgrown), hm', hr⟩

/-- What an interpretation gives and what it leaves behind, where `n` frames had
been made. -/
structure Discipline.Covers (d : Discipline) (n : Nat)
    (result : Except InterpretError Value × Machine) : Prop where
  size : n ≤ result.2.store.frames.size
  store : result.2.store.Obeys d
  value : ∀ {v : Value}, result.1 = .ok v → v.Obeys d result.2.store.frames.size
  error : ∀ {e : EvalError}, result.1 = .error (.failed e) → d.error e

/-- An interpretation that changes nothing and gives no value. -/
theorem Discipline.Covers.refused
    {m : Machine} {e : InterpretError}
    (hm : m.store.Obeys d) (he : ∀ e', e ≠ .failed e') :
    d.Covers m.store.frames.size (.error e, m) where
  size := Nat.le_refl _
  store := hm
  value := by simp
  error := fun h => absurd (Except.error.inj h) (he _)

theorem runTree_covers
    {host : Host} (hhost : host.Obeys d)
    {m : Machine} (hm : m.store.Obeys d)
    {scope : Scope} {t : Tree} (ht : d.node m.store.frames.size scope t)
    (table : Table) :
    d.Covers m.store.frames.size (runTree host table scope t m) := by
  have hrun := evalTree_obeys hhost (callValue_obeys hhost callAllowance) t ht table
  unfold runTree evaluate
  split
  · exact .refused hm (by simp)
  · rename_i e m' h
    obtain ⟨hsize, hm', he⟩ := hrun (Nat.le_refl _) hm h
    refine ⟨hsize, hm', by simp, ?_⟩
    rintro _ ⟨⟩
    exact he
  · rename_i v m' h
    obtain ⟨hsize, hm', hv⟩ := hrun (Nat.le_refl _) hm h
    refine ⟨hsize, hm', ?_, by simp⟩
    rintro _ ⟨⟩
    exact hv

theorem runSource_covers
    {host : Host} (hhost : host.Obeys d)
    {m : Machine} (hm : m.store.Obeys d)
    {scope : Scope} {source : String}
    (ht : ∀ t, parse source = .ok t → d.node m.store.frames.size scope t)
    (table : Table) :
    d.Covers m.store.frames.size (runSource host table scope source m) := by
  unfold runSource
  split
  · exact .refused hm (by simp)
  · rename_i t hparse
    exact runTree_covers hhost hm (ht t hparse) table

/-- Making a host function and binding it, for each function of the prelude. -/
theorem installPrelude_obeys
    (n : Nat) (scope : Scope) :
    (installPrelude scope).Obeys d (fun _ _ => True) n := by
  have hone : ∀ (name : String) (k : Nat),
      (do
        let v ← (Blueprint.builtin name []).make
        EvalM.define scope name v : EvalM Unit).Obeys d (fun _ _ => True) k := by
    intro name k
    have hmake : (Blueprint.builtin name []).make.GivesObedient d k :=
      .bind .fresh fun id _ _ _ => .pure fun _ _ => .builtin id name (by simp)
    exact .bind hmake fun v _ _ hv => .define hv scope name
  exact .bind (hone "add" n) fun _ k _ _ => .bind (hone "mul" k) fun _ _ _ _ =>
    .pure fun _ _ => trivial

/-- Going on with the value of a call. -/
theorem Action.andThenCall_obeys
    {n : Nat} {callee argument : Value} {next : Value → Action}
    (hcallee : callee.Obeys d n) (hargument : argument.Obeys d n)
    (hnext : ∀ k v, n ≤ k → v.Obeys d k → (next v).Obeys d k) :
    (Action.andThenCall callee argument next).Obeys d n := by
  refine ⟨hcallee, hargument, ?_⟩
  intro k outcome hk houtcome
  cases outcome with
  | ok v => exact hnext k v hk houtcome
  | error e => exact houtcome

section Standard

/-- The errors that the standard host raises are not about the shape of trees,
and those of type blame an application or an operator. -/
def Discipline.AdmitsRaised (d : Discipline) : Prop :=
  ∀ (kind : ErrorKind) (tag detail : String),
    kind ∉ [.shape, .unsupportedNode] →
      (kind = .type → tag ∈ ["apply", "infix"]) →
      d.error (.raised kind tag detail)

variable (hraised : d.AdmitsRaised) {n : Nat}
include hraised

theorem Host.Standard.arithmetic_obeys
    (name : String) (f : Float → Float → Float) (left right : Value) :
    (arithmetic name f left right).Obeys d n := by
  unfold arithmetic
  split
  · exact .number _
  · exact hraised _ _ _ (by decide) (by decide)

theorem Host.Standard.combinePatterns_obeys
    (f : List String → List String → List String) (left right : Value) :
    (combinePatterns f left right).Obeys d n := by
  have hfail : ∀ v, (combinePatterns.notPattern v).Obeys d n :=
    fun v => hraised _ _ _ (by decide) (by decide)
  unfold combinePatterns
  split
  · exact fun id => .foreign id _
  · exact hfail _
  · exact hfail _

theorem Host.Standard.builtin_obeys
    (name : String) {received : List Value} {argument : Value}
    (hreceived : ∀ v ∈ received, v.Obeys d n) (hargument : argument.Obeys d n) :
    (builtin name received argument).Obeys d n := by
  unfold builtin
  split
  · exact arithmetic_obeys hraised _ _ _ _
  · exact arithmetic_obeys hraised _ _ _ _
  · exact hargument
  · exact hargument
  · exact .text _
  · exact .unit
  · exact hraised _ _ _ (by decide) (by decide)
  · split
    · exact fun id => .foreign id _
    · exact hraised _ _ _ (by decide) (by decide)
  · exact hreceived _ (by simp)
  · exact .text _
  · have hf := hreceived _ (List.mem_singleton.2 rfl)
    refine Action.andThenCall_obeys hf hargument fun k v hk hv => ?_
    exact Action.andThenCall_obeys (hf.mono hk) hv fun _ _ _ hw => hw
  · refine (?_ : Value.Obeys d n _)
    split
    · exact hreceived _ (by simp)
    · exact hargument
  · intro id
    refine .builtin id name ?_
    simpa [or_imp, forall_and] using ⟨hreceived, hargument⟩

theorem Host.Standard.operator_obeys
    (name symbol : String) {left right : Value}
    (hleft : left.Obeys d n) (hright : right.Obeys d n) :
    (operator name symbol left right).Obeys d n := by
  unfold operator
  split
  · exact hleft
  · exact hright
  · exact .text _
  · exact .text _
  · exact Action.andThenCall_obeys hright hleft fun _ _ _ hv => hv
  · exact Action.andThenCall_obeys hleft hright fun _ _ _ hv => hv
  · exact .number _
  · exact hraised _ _ _ (by decide) (by simp)
  · exact combinePatterns_obeys hraised _ _ _
  · exact combinePatterns_obeys hraised _ _ _
  · exact .unit

/-- The standard host obeys every discipline that admits the errors it
raises. -/
theorem Host.standard_obeys : Host.standard.Obeys d where
  builtin := Host.Standard.builtin_obeys hraised
  operator := Host.Standard.operator_obeys hraised

end Standard

end Curried
