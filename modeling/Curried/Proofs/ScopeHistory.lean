import Curried.Proofs.StoreGrowth
import Mathlib.Data.Fin.Tuple.Basic
import Mathlib.Data.List.Basic
import Mathlib.Data.List.Induction

/-!
# Scopes and what was done to them

What a name stands for in a scope, told from the operations that were made and
not from the frames that they left.

**Histories.**  An `Operation n k` is made where there are `n` handles to scopes
and leaves `k` of them.  A `History n` is a sequence of operations from nothing
to `n` handles, so that it mentions only handles that have been got.
`History.outcome` carries the operations out on a store.

**Chains and deeds.**  `History.chain` lists the frame of a handle, the frame
that this one was layered over, and so on.  `History.deeds` lists, for one
frame, the names that were bound in it and the times when it was emptied.
Frames are told apart by the number of those made before them.

**Bindings.**  `Latest deeds x v` says that a deed binds `x` to `v` and that
none after it binds `x` again or empties the frame.

**Result.**  `History.lookup_follows_history`.
-/

namespace Curried

/-- An operation on scopes, where `n` handles are held before it and `k` after
it. -/
inductive Operation (n : Nat) : (k : Nat) → Type
  /-- A scope without parent. -/
  | new : Operation n (n + 1)
  /-- Another handle to the same frame. -/
  | clone (s : Fin n) : Operation n (n + 1)
  /-- A scope layered over that of the handle, with one name bound. -/
  | extend (s : Fin n) (x : String) (v : Value) : Operation n (n + 1)
  | define (s : Fin n) (x : String) (v : Value) : Operation n n
  | clear (s : Fin n) : Operation n n

/-- A sequence of operations that leaves `n` handles. -/
inductive History : (n : Nat) → Type
  | nothing : History 0
  | after {n k : Nat} (h : History n) (o : Operation n k) : History k

/-- A store, and the scopes behind the handles that are held. -/
structure Holding (n : Nat) where
  store : Store
  scope : Fin n → Scope

/-- What was done to a frame. -/
inductive Deed where
  | bind (x : String) (v : Value)
  | clear

/-- A deed that leaves the binding of `x` alone. -/
def Deed.Spares (x : String) : Deed → Prop
  | .bind y _ => y ≠ x
  | .clear => False

/-- The deeds bind `x` to `v`, and afterwards neither bind `x` again nor empty
the frame. -/
def Latest (deeds : List Deed) (x : String) (v : Value) : Prop :=
  ∃ before after, deeds = before ++ .bind x v :: after ∧ ∀ d ∈ after, d.Spares x

namespace Operation

variable {n k : Nat}

/-- Carries an operation out. -/
def perform (m : Holding n) : Operation n k → Holding k
  | .new => ⟨m.store.pushRoot, Fin.snoc m.scope m.store.next⟩
  | .clone s => ⟨m.store, Fin.snoc m.scope (m.scope s)⟩
  | .extend s x v =>
      ⟨m.store.pushChild (m.scope s) x v, Fin.snoc m.scope m.store.next⟩
  | .define s x v => ⟨m.store.define (m.scope s) x v, m.scope⟩
  | .clear s => ⟨m.store.clear (m.scope s), m.scope⟩

/-- A handle that was held before the operation, after it. -/
def keep (s : Fin n) : Operation n k → Fin k
  | .new => s.castSucc
  | .clone _ => s.castSucc
  | .extend _ _ _ => s.castSucc
  | .define _ _ _ => s
  | .clear _ => s

/-- The number of frames that an operation makes. -/
def makes : Operation n k → Nat
  | .new => 1
  | .extend _ _ _ => 1
  | _ => 0

/-- The frames of handles, from the inside out, after an operation on handles
with the given ones.  A frame that it makes is `fresh`. -/
def chain (fresh : Scope) (before : Fin n → List Scope) :
    Operation n k → Fin k → List Scope
  | .new => Fin.snoc before [fresh]
  | .clone s => Fin.snoc before (before s)
  | .extend s _ _ => Fin.snoc before (fresh :: before s)
  | .define _ _ _ => before
  | .clear _ => before

/-- What an operation does, and to which frame. -/
def deed? (fresh : Scope) (before : Fin n → List Scope) :
    Operation n k → Option (Scope × Deed)
  | .extend _ x v => some (fresh, .bind x v)
  | .define s x v => (before s).head?.map fun f => (f, .bind x v)
  | .clear s => (before s).head?.map fun f => (f, .clear)
  | _ => none

end Operation

namespace History

/-- Carries the operations of a history out, one after the other. -/
def outcome : {n : Nat} → History n → Holding n
  | _, .nothing => ⟨.empty, Fin.elim0⟩
  | _, .after h o => o.perform h.outcome

/-- The number of frames made. -/
def made : {n : Nat} → History n → Nat
  | _, .nothing => 0
  | _, .after h o => h.made + o.makes

/-- The frame of a handle, then the frame that it was layered over, and so on to
the one that was layered over none. -/
def chain : {n : Nat} → History n → Fin n → List Scope
  | _, .nothing => Fin.elim0
  | _, .after h o => o.chain ⟨h.made⟩ h.chain

/-- What was done, and to which frames, in order. -/
def record : {n : Nat} → History n → List (Scope × Deed)
  | _, .nothing => []
  | _, .after h o => h.record ++ (o.deed? ⟨h.made⟩ h.chain).toList

/-- What was done to one frame, in order. -/
def deeds {n : Nat} (h : History n) (f : Scope) : List Deed :=
  h.record.filterMap fun (g, d) => if g = f then some d else none

end History

/-- The value that a name has after a deed, if it had the given one before. -/
def Deed.alter (x : String) (found : Option Value) : Deed → Option Value
  | .bind y v => if y = x then some v else found
  | .clear => none

/-- The value that deeds leave a name with. -/
def Deed.current (x : String) (deeds : List Deed) : Option Value :=
  deeds.foldl (Deed.alter x) none

theorem Deed.current_append
    (x : String) (deeds : List Deed) (d : Deed) :
    Deed.current x (deeds ++ [d]) = d.alter x (Deed.current x deeds) := by
  simp [Deed.current]

theorem latest_append_singleton
    {deeds : List Deed} {d : Deed} {x : String} {v : Value} :
    Latest (deeds ++ [d]) x v ↔ d = .bind x v ∨ d.Spares x ∧ Latest deeds x v := by
  constructor
  · rintro ⟨before, after, heq, hafter⟩
    rcases List.eq_nil_or_concat after with rfl | ⟨after, last, rfl⟩
    · have hlast := List.append_inj_right' heq rfl
      exact Or.inl (List.cons.inj hlast).1
    · have heq' : deeds ++ [d] = (before ++ .bind x v :: after) ++ [last] := by
        simpa using heq
      have hlast := (List.cons.inj (List.append_inj_right' heq' rfl)).1
      refine Or.inr ⟨?_, before, after, List.append_inj_left' heq' rfl, ?_⟩
      · rw [hlast]
        exact hafter last (by simp)
      · intro e he
        exact hafter e (by simp [he])
  · rintro (rfl | ⟨hspares, before, after, rfl, hafter⟩)
    · exact ⟨deeds, [], rfl, by simp⟩
    · refine ⟨before, after ++ [d], by simp, ?_⟩
      intro e he
      rcases List.mem_append.1 he with he | he
      · exact hafter e he
      · obtain rfl := List.mem_singleton.1 he
        exact hspares

/-- The value that deeds leave a name with is the one that was bound latest. -/
theorem Deed.current_eq_some_iff
    {x : String} {deeds : List Deed} {v : Value} :
    Deed.current x deeds = some v ↔ Latest deeds x v := by
  induction deeds using List.reverseRecOn with
  | nil => simp [Deed.current, Latest]
  | append_singleton deeds d ih =>
      rw [latest_append_singleton, ← ih, Deed.current_append]
      cases d with
      | clear => simp [Deed.alter, Deed.Spares]
      | bind y w => by_cases hy : y = x <;> simp [Deed.alter, Deed.Spares, hy]

theorem Deed.current_eq_none_iff
    {x : String} {deeds : List Deed} :
    Deed.current x deeds = none ↔ ¬ ∃ v, Latest deeds x v := by
  rw [Option.eq_none_iff_forall_ne_some]
  simp only [ne_eq, Deed.current_eq_some_iff, not_exists]

namespace Store

/-- The frames of a scope and of those around it, from the inside out. -/
inductive Chain (s : Store) : Scope → List Scope → Prop
  | root {scope : Scope} {f : Frame} :
      s.frame? scope = some f → f.parent = none → Chain s scope [scope]
  | child {scope parent : Scope} {f : Frame} {outer : List Scope} :
      s.frame? scope = some f → f.parent = some parent →
      parent.index < scope.index → Chain s parent outer →
      Chain s scope (scope :: outer)

/-- The binding of a name in the frame of a scope itself. -/
def bound (s : Store) (x : String) (scope : Scope) : Option Value :=
  (s.frame? scope).bind fun f => f.bindings[x]?

namespace Chain

variable {s s' : Store} {scope : Scope} {scopes : List Scope}

theorem head?_eq
    (h : s.Chain scope scopes) :
    scopes.head? = some scope := by
  cases h <;> rfl

theorem exists_frame
    (h : s.Chain scope scopes) :
    ∃ f, s.frame? scope = some f := by
  cases h with
  | root hf _ => exact ⟨_, hf⟩
  | child hf _ _ _ => exact ⟨_, hf⟩

/-- A chain stays what it is as long as the frames keep their parents. -/
theorem mono
    (h : s.Chain scope scopes)
    (hparents : ∀ c f, s.frame? c = some f → ∃ g, s'.frame? c = some g ∧
      g.parent = f.parent) :
    s'.Chain scope scopes := by
  induction h with
  | root hf hparent =>
      obtain ⟨g, hg, hsame⟩ := hparents _ _ hf
      exact .root hg (hsame.trans hparent)
  | child hf hparent hless _ ih =>
      obtain ⟨g, hg, hsame⟩ := hparents _ _ hf
      exact .child hg (hsame.trans hparent) hless ih

theorem extends_mono
    (h : s.Chain scope scopes) (hs : s.Extends s') :
    s'.Chain scope scopes :=
  h.mono fun _ f hf => ⟨f, hs hf, rfl⟩

theorem modify_mono
    (h : s.Chain scope scopes) (changed : Scope) {g : Frame → Frame}
    (hg : ∀ f, (g f).parent = f.parent) :
    Chain ⟨s.frames.modify changed.index g⟩ scope scopes := by
  refine h.mono fun c f hf => ?_
  rw [frame?_modify]
  split
  · rename_i hc
    subst hc
    exact ⟨g f, by rw [hf]; rfl, hg f⟩
  · exact ⟨f, hf, rfl⟩

/-- The search for a name goes through the chain. -/
theorem lookupWithin
    (h : s.Chain scope scopes) (x : String) :
    ∀ {n : Nat}, scope.index < n →
      s.lookupWithin x n scope = scopes.findSome? (s.bound x) := by
  induction h with
  | @root scope f hf hparent =>
      intro n hn
      obtain ⟨n, rfl⟩ := Nat.exists_eq_add_of_lt (Nat.zero_lt_of_lt hn)
      rw [Nat.zero_add, Store.lookupWithin]
      cases hx : f.bindings[x]? with
      | some v => simp [bound, hf, hx]
      | none => simp [bound, hf, hx, hparent]
  | @child scope parent f outer hf hparent hless _ ih =>
      intro n hn
      obtain ⟨n, rfl⟩ := Nat.exists_eq_add_of_lt (Nat.zero_lt_of_lt hn)
      rw [Nat.zero_add, Store.lookupWithin]
      cases hx : f.bindings[x]? with
      | some v => simp [bound, hf, hx]
      | none =>
          have hrest := ih (n := n) (by omega)
          simp [bound, hf, hx, hparent, hrest]

theorem lookup
    (h : s.Chain scope scopes) (x : String) :
    s.lookup scope x = scopes.findSome? (s.bound x) :=
  h.lookupWithin x (Nat.lt_succ_self _)

end Chain

theorem bound_push
    (s : Store) (f : Frame) (x : String) (scope : Scope) :
    (s.push f).bound x scope = if scope = s.next then f.bindings[x]?
      else s.bound x scope := by
  unfold bound
  rw [frame?_push]
  split <;> rfl

theorem bound_define
    {s : Store} {scope : Scope} {f : Frame}
    (hf : s.frame? scope = some f) (x y : String) (v : Value) (other : Scope) :
    (s.define scope x v).bound y other = if other = scope ∧ x = y then some v
      else s.bound y other := by
  unfold bound
  rw [frame?_define]
  by_cases hother : other = scope
  · subst hother
    by_cases hxy : x = y <;> simp [hf, hxy, Std.TreeMap.getElem?_insert]
  · simp [hother]

theorem bound_clear
    (s : Store) (scope other : Scope) (y : String) :
    (s.clear scope).bound y other = if other = scope then none
      else s.bound y other := by
  unfold bound clear
  rw [frame?_modify]
  split
  · cases s.frame? scope <;> simp
  · rfl

theorem mem_names_iff
    {s : Store} {scope : Scope} {x : String} :
    x ∈ s.names scope ↔ ∃ v, s.bound x scope = some v := by
  unfold names bound
  cases s.frame? scope with
  | none => simp
  | some f =>
      change x ∈ f.bindings.keys ↔ ∃ v, f.bindings[x]? = some v
      rw [Std.TreeMap.mem_keys, Std.TreeMap.mem_iff_isSome_getElem?,
        Option.isSome_iff_exists]

theorem names_ascend
    (s : Store) (scope : Scope) :
    (s.names scope).Pairwise (· < ·) := by
  unfold names
  split
  · exact .nil
  · rename_i f _
    have hkeys : f.bindings.keys.Pairwise fun x y => compare x y = .lt :=
      Std.TreeMap.ordered_keys
    exact hkeys.imp compareOfLessAndEq_eq_lt.1

end Store

namespace History

/-- The store is what the history says: every handle has its chain, and every
frame binds what its deeds have left. -/
structure Told {n : Nat} (h : History n) : Prop where
  size : h.outcome.store.frames.size = h.made
  chain : ∀ s, h.outcome.store.Chain (h.outcome.scope s) (h.chain s)
  bound : ∀ f x, h.outcome.store.bound x f = Deed.current x (h.deeds f)

/-- One more handle has the chain that it should have. -/
theorem chain_snoc
    {n : Nat} {store : Store} {scope : Fin n → Scope}
    {chain : Fin n → List Scope} {newScope : Scope} {newChain : List Scope}
    (hchain : ∀ s, store.Chain (scope s) (chain s))
    (hnew : store.Chain newScope newChain) (s : Fin (n + 1)) :
    store.Chain (Fin.snoc (α := fun _ => Scope) scope newScope s)
      (Fin.snoc (α := fun _ => List Scope) chain newChain s) := by
  refine s.lastCases ?_ fun s => ?_
  · rw [Fin.snoc_last, Fin.snoc_last]
    exact hnew
  · rw [Fin.snoc_castSucc, Fin.snoc_castSucc]
    exact hchain s

/-- What one more deed adds to the deeds of a frame. -/
theorem deeds_after
    {n k : Nat} {h : History n} {o : Operation n k} {f : Scope} {d : Deed}
    (ho : o.deed? ⟨h.made⟩ h.chain = some (f, d)) (g : Scope) :
    (h.after o).deeds g = if f = g then h.deeds g ++ [d] else h.deeds g := by
  rw [deeds, record, ho, List.filterMap_append]
  split
  · rename_i hfg
    simp [hfg, deeds]
  · rename_i hfg
    simp [hfg, deeds]

/-- An operation that does nothing to a frame leaves all deeds as they were. -/
theorem deeds_after_none
    {n k : Nat} {h : History n} {o : Operation n k}
    (ho : o.deed? ⟨h.made⟩ h.chain = none) :
    (h.after o).deeds = h.deeds := by
  funext g
  rw [deeds, record, ho]
  simp [deeds]

namespace Told

variable {n : Nat} {h : History n} (ht : h.Told)
include ht

theorem next_eq : h.outcome.store.next = ⟨h.made⟩ := by
  rw [Store.next, ht.size]

theorem head?_chain (s : Fin n) : (h.chain s).head? = some (h.outcome.scope s) :=
  (ht.chain s).head?_eq

/-- Nothing has been bound in a frame that has not been made. -/
theorem current_fresh (x : String) : Deed.current x (h.deeds ⟨h.made⟩) = none := by
  rw [← ht.bound, ← ht.next_eq]
  simp [Store.bound, Store.frame?, Store.next]

theorem new : (h.after .new).Told where
  size := by
    change (h.outcome.store.push _).frames.size = h.made + 1
    rw [Store.push, Array.size_push, ht.size]
  chain := by
    have hpush : h.outcome.store.Extends h.outcome.store.pushRoot := .push _ _
    refine chain_snoc (fun s => (ht.chain s).extends_mono hpush) ?_
    have hnext := h.outcome.store.frame?_push ⟨∅, none⟩ h.outcome.store.next
    rw [if_pos rfl] at hnext
    rw [← ht.next_eq]
    exact .root hnext rfl
  bound := by
    intro f x
    rw [deeds_after_none rfl]
    change (h.outcome.store.push _).bound x f = _
    rw [Store.bound_push, ht.next_eq]
    split
    · rename_i hf
      rw [hf, ht.current_fresh]
      simp
    · exact ht.bound f x

theorem clone (s : Fin n) : (h.after (.clone s)).Told where
  size := ht.size
  chain := chain_snoc ht.chain (ht.chain s)
  bound := by
    rw [deeds_after_none rfl]
    exact ht.bound

theorem extend
    (s : Fin n) (x : String) (v : Value) :
    (h.after (.extend s x v)).Told where
  size := by
    change (h.outcome.store.push _).frames.size = h.made + 1
    rw [Store.push, Array.size_push, ht.size]
  chain := by
    have hpush := Store.Extends.pushChild h.outcome.store (h.outcome.scope s) x v
    refine chain_snoc (fun s => (ht.chain s).extends_mono hpush) ?_
    obtain ⟨f, hf⟩ := (ht.chain s).exists_frame
    have hless : (h.outcome.scope s).index < h.outcome.store.next.index :=
      (Array.getElem?_eq_some_iff.1 hf).1
    have hnext :=
      h.outcome.store.frame?_pushChild (h.outcome.scope s) x v
        h.outcome.store.next
    rw [if_pos rfl] at hnext
    rw [← ht.next_eq]
    exact .child hnext rfl hless ((ht.chain s).extends_mono hpush)
  bound := by
    intro f y
    rw [deeds_after rfl]
    change (h.outcome.store.push _).bound y f = _
    rw [Store.bound_push, ht.next_eq]
    by_cases hf : f = ⟨h.made⟩
    · have hfresh := ht.current_fresh y
      rw [if_pos hf, if_pos hf.symm, hf, Deed.current_append, hfresh]
      simp [Deed.alter, Std.TreeMap.getElem?_insert]
    · rw [if_neg hf, if_neg (Ne.symm hf)]
      exact ht.bound f y

theorem define
    (s : Fin n) (x : String) (v : Value) :
    (h.after (.define s x v)).Told where
  size := (Array.size_modify ..).trans ht.size
  chain := fun r => (ht.chain r).modify_mono (h.outcome.scope s) fun _ => rfl
  bound := by
    intro f y
    obtain ⟨g, hg⟩ := (ht.chain s).exists_frame
    rw [deeds_after (f := h.outcome.scope s) (d := .bind x v)
      (by simp [Operation.deed?, ht.head?_chain])]
    change (h.outcome.store.define _ x v).bound y f = _
    rw [Store.bound_define hg, ht.bound]
    by_cases hf : f = h.outcome.scope s
    · rw [if_pos hf.symm, Deed.current_append]
      simp [Deed.alter, hf]
    · simp [hf, Ne.symm hf]

theorem clear (s : Fin n) : (h.after (.clear s)).Told where
  size := (Array.size_modify ..).trans ht.size
  chain := fun r => (ht.chain r).modify_mono (h.outcome.scope s) fun _ => rfl
  bound := by
    intro f y
    rw [deeds_after (f := h.outcome.scope s) (d := .clear)
      (by simp [Operation.deed?, ht.head?_chain])]
    change (h.outcome.store.clear _).bound y f = _
    rw [Store.bound_clear, ht.bound]
    by_cases hf : f = h.outcome.scope s
    · rw [if_pos hf, if_pos hf.symm, Deed.current_append]
      rfl
    · rw [if_neg hf, if_neg (Ne.symm hf)]

end Told

theorem told :
    ∀ {n : Nat} (h : History n), h.Told
  | _, .nothing => ⟨rfl, fun s => s.elim0, fun _ _ => rfl⟩
  | _, .after h .new => h.told.new
  | _, .after h (.clone s) => h.told.clone s
  | _, .after h (.extend s x v) => h.told.extend s x v
  | _, .after h (.define s x v) => h.told.define s x v
  | _, .after h (.clear s) => h.told.clear s

/-- A name stands for what is bound to it in the first frame of the chain that
binds it. -/
theorem lookup_eq
    {n : Nat} (h : History n) (s : Fin n) (x : String) :
    h.outcome.store.lookup (h.outcome.scope s) x = (h.chain s).findSome?
      fun f => Deed.current x (h.deeds f) := by
  rw [(h.told.chain s).lookup]
  exact congrArg (List.findSome? · (h.chain s)) (funext fun f => h.told.bound f x)

theorem chain_keep
    {n k : Nat} (h : History n) (o : Operation n k) (s : Fin n) :
    (h.after o).chain (o.keep s) = h.chain s := by
  cases o with
  | new => exact Fin.snoc_castSucc (α := fun _ => List Scope) _ _ s
  | clone r => exact Fin.snoc_castSucc (α := fun _ => List Scope) _ _ s
  | extend r x v => exact Fin.snoc_castSucc (α := fun _ => List Scope) _ _ s
  | define r x v => rfl
  | clear r => rfl

/-- An operation matters only to the handles in whose chain it does
something. -/
theorem lookup_after
    {n k : Nat} (h : History n) (o : Operation n k) (s : Fin n) (x : String)
    (ho : ∀ f d, o.deed? ⟨h.made⟩ h.chain = some (f, d) → f ∉ h.chain s) :
    (h.after o).outcome.store.lookup ((h.after o).outcome.scope (o.keep s)) x =
      h.outcome.store.lookup (h.outcome.scope s) x := by
  have hdeeds : ∀ g ∈ h.chain s, (h.after o).deeds g = h.deeds g := by
    intro g hg
    cases hdeed : o.deed? ⟨h.made⟩ h.chain with
    | none => rw [deeds_after_none hdeed]
    | some fd =>
        obtain ⟨f, d⟩ := fd
        have hne : f ≠ g := by
          rintro rfl
          exact ho f d hdeed hg
        rw [deeds_after hdeed, if_neg hne]
  rw [lookup_eq, lookup_eq, chain_keep, ← List.head?_filterMap,
    ← List.head?_filterMap]
  exact congrArg List.head? (List.filterMap_congr fun g hg => by rw [hdeeds g hg])

/-- **What a name stands for, by history.**  Whatever operations have been made
through whatever handles: from a handle, a name stands for the value bound to it
latest in the first frame, from that of the handle outwards, in which it has
been bound since the frame was last emptied, and for nothing if there is no such
frame.  The frame of a handle lists exactly the names bound in it so, in
strictly ascending order.  An operation on a frame that is not on the way from
the handle outwards changes nothing of this. -/
theorem lookup_follows_history
    {n : Nat} (h : History n) (s : Fin n) (x : String) :
    (∀ v, h.outcome.store.lookup (h.outcome.scope s) x = some v ↔
      ∃ inner f outer, h.chain s = inner ++ f :: outer ∧ Latest (h.deeds f) x v ∧
        ∀ g ∈ inner, ¬ ∃ w, Latest (h.deeds g) x w) ∧
    (h.outcome.store.lookup (h.outcome.scope s) x = none ↔
      ∀ f ∈ h.chain s, ¬ ∃ w, Latest (h.deeds f) x w) ∧
    (h.outcome.store.contains (h.outcome.scope s) x = true ↔
      ∃ f ∈ h.chain s, ∃ v, Latest (h.deeds f) x v) ∧
    (∀ y, y ∈ h.outcome.store.names (h.outcome.scope s) ↔
      ∃ f v, (h.chain s).head? = some f ∧ Latest (h.deeds f) y v) ∧
    (h.outcome.store.names (h.outcome.scope s)).Pairwise (· < ·) ∧
    ∀ {k : Nat} (o : Operation n k),
      (∀ f d, o.deed? ⟨h.made⟩ h.chain = some (f, d) → f ∉ h.chain s) →
      (h.after o).outcome.store.lookup ((h.after o).outcome.scope (o.keep s)) x =
        h.outcome.store.lookup (h.outcome.scope s) x := by
  have hnone : h.outcome.store.lookup (h.outcome.scope s) x = none ↔
      ∀ f ∈ h.chain s, ¬ ∃ w, Latest (h.deeds f) x w := by
    rw [lookup_eq, List.findSome?_eq_none_iff]
    simp only [Deed.current_eq_none_iff]
  refine ⟨?_, hnone, ?_, ?_, Store.names_ascend _ _, fun o ho =>
    h.lookup_after o s x ho⟩
  · intro v
    rw [lookup_eq, List.findSome?_eq_some_iff]
    simp only [Deed.current_eq_some_iff, Deed.current_eq_none_iff]
  · rw [Store.contains, Option.isSome_iff_ne_none, ne_eq, hnone]
    simp only [not_forall, not_not, exists_prop]
  · intro y
    rw [Store.mem_names_iff, h.told.head?_chain]
    simp only [h.told.bound, Deed.current_eq_some_iff, Option.some.injEq,
      exists_and_left, exists_eq_left']

/-- A scope, one layered over it, and one apart.  A name is bound in the first
one through another handle to it, after the second one was made, and a name of
the second one is shadowed and then cleared away. -/
def layered : History 4 :=
  History.nothing |>.after .new |>.after (.extend 0 "x" (.text "a")) |>.after
    (.clone 0) |>.after .new
    |>.after (.define 2 "y" (.text "b")) |>.after (.define 1 "y" (.text "c"))
      |>.after (.clear 1)

theorem layered_lookup :
    layered.outcome.store.lookup (layered.outcome.scope 1) "y" = some (.text "b") ∧
    (∀ f d, (Operation.define 3 "y" .unit).deed? ⟨layered.made⟩ layered.chain =
      some (f, d) → f ∉ layered.chain 1) ∧
    (layered.after (.define 3 "y" .unit)).outcome.store.lookup
      (layered.outcome.scope 1) "y" = some (.text "b") := by
  have hdeeds : layered.deeds ⟨1⟩ =
      [.bind "x" (.text "a"), .bind "y" (.text "c"), .clear] := rfl
  have hinner : ∀ g ∈ [(⟨1⟩ : Scope)], ¬ ∃ w, Latest (layered.deeds g) "y" w := by
    intro g hg
    rw [List.mem_singleton.1 hg, hdeeds, ← Deed.current_eq_none_iff]
    rfl
  have happart : ∀ f d,
      (Operation.define 3 "y" .unit).deed? ⟨layered.made⟩ layered.chain =
        some (f, d) →
      f ∉ layered.chain 1 := by
    intro f d hdeed
    obtain rfl : ⟨2⟩ = f := congrArg Prod.fst (Option.some.inj hdeed)
    decide
  have hy := ((layered.lookup_follows_history 1 "y").1 (.text "b")).2
    ⟨[⟨1⟩], ⟨0⟩, [], rfl, ⟨[], [], rfl, by simp⟩, hinner⟩
  obtain ⟨-, -, -, -, -, hafter⟩ := layered.lookup_follows_history 1 "y"
  exact ⟨hy, happart, (hafter _ happart).trans hy⟩

end History

end Curried
