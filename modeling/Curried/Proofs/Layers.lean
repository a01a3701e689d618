import Curried.Proofs.StoreGrowth

/-!
# Bindings layered over a scope

**Layers.**  `Store.layer` makes a scope inside a scope for each of several
bindings, one inside the other.

**Lookups.**  Where all parents come earlier, a lookup goes from a frame to its
parent and never runs out of frames to search (`Store.lookup_of_frame`).

**Result.**  `Store.lookup_layer`: as long as the layers stand as they were
made, a name is looked up behind them as it was bound last, and if it was not
bound there, as it is seen from the scope below them at the time of the lookup.
-/

namespace Curried

namespace Store

/-- Every parent comes earlier than its frame. -/
def Ordered (s : Store) : Prop :=
  ∀ ⦃scope parent : Scope⦄ ⦃f : Frame⦄, s.frame? scope = some f →
    f.parent = some parent → parent.index < scope.index

/-- Makes a scope for each binding, the first one inside the given scope and
each other one inside the one before it.  Gives the store and the innermost
scope. -/
def layer (s : Store) (scope : Scope) : List (String × Value) → Store × Scope
  | [] => (s, scope)
  | b :: bs => (s.pushChild scope b.1 b.2).layer s.next bs

/-- The frames that `s₁` has beyond those of `s` stand in `s'` as they stand in
`s₁`. -/
def KeepsNew (s s₁ s' : Store) : Prop :=
  ∀ ⦃scope : Scope⦄ ⦃f : Frame⦄, s.frames.size ≤ scope.index →
    s₁.frame? scope = some f → s'.frame? scope = some f

theorem Ordered.pushChild
    {s : Store} {scope : Scope}
    (hs : s.Ordered) (hscope : scope.index < s.frames.size) (x : String)
    (v : Value) :
    (s.pushChild scope x v).Ordered := by
  intro inner parent f hf hparent
  rw [frame?_pushChild] at hf
  split at hf
  · rename_i hinner
    subst hinner
    cases hf
    cases hparent
    exact hscope
  · exact hs hf hparent

section Layer

variable (s : Store) (scope : Scope) (bs : List (String × Value))

theorem layer_extends : Extends s (s.layer scope bs).1 := by
  induction bs generalizing s scope with
  | nil => exact .refl s
  | cons b bs ih => exact (Extends.pushChild s scope b.1 b.2).trans (ih _ _)

variable {s scope}

theorem Ordered.layer
    (hs : s.Ordered) (hscope : scope.index < s.frames.size) :
    (s.layer scope bs).1.Ordered := by
  induction bs generalizing s scope with
  | nil => exact hs
  | cons b bs ih =>
      refine ih (hs.pushChild hscope b.1 b.2) ?_
      rw [size_pushChild]
      exact Nat.lt_succ_self _

end Layer

section Lookup

variable {s : Store} (hs : s.Ordered) (x : String)
include hs

/-- The bound on the frames that are searched makes no difference. -/
theorem lookupWithin_congr :
    ∀ {n k : Nat} {scope : Scope}, scope.index < n → scope.index < k →
      s.lookupWithin x n scope = s.lookupWithin x k scope
  | n + 1, k + 1, scope, hn, hk => by
      simp only [lookupWithin]
      cases hf : s.frame? scope with
      | none => rfl
      | some f =>
          cases hv : f.bindings[x]? with
          | some v => simp only [hv]
          | none =>
              cases hp : f.parent with
              | none => simp only [hv, hp]
              | some parent =>
                  have hless := hs hf hp
                  simp only [hv, hp]
                  exact lookupWithin_congr (by omega) (by omega)

/-- A name that is not bound in the frame of a scope is seen as from its
parent. -/
theorem lookup_of_frame
    {scope parent : Scope} {f : Frame}
    (hf : s.frame? scope = some f) (hparent : f.parent = some parent) :
    s.lookup scope x = f.bindings[x]?.or (s.lookup parent x) := by
  have hless := hs hf hparent
  simp only [lookup, lookupWithin, hf, hparent]
  cases hv : f.bindings[x]? with
  | some v => rfl
  | none => exact lookupWithin_congr hs x hless (Nat.lt_succ_self _)

end Lookup

/-- Behind layers that stand as they were made, a name is looked up as it was
bound last, and else as it is seen from the scope below them. -/
theorem lookup_layer
    {s s' : Store} {scope : Scope} (bs : List (String × Value))
    (hnew : KeepsNew s (s.layer scope bs).1 s') (hs' : s'.Ordered) (x : String) :
    s'.lookup (s.layer scope bs).2 x =
      (bs.reverse.lookup x).or (s'.lookup scope x) := by
  induction bs generalizing s scope with
  | nil => rfl
  | cons b bs ih =>
      have hlayers : KeepsNew (s.pushChild scope b.1 b.2)
          ((s.pushChild scope b.1 b.2).layer s.next bs).1 s' := by
        intro inner f hinner hf
        rw [size_pushChild] at hinner
        exact hnew (by omega) hf
      have hframe : s'.frame? s.next =
          some ⟨(∅ : Std.TreeMap String Value).insert b.1 b.2, some scope⟩ := by
        refine hnew (Nat.le_refl _) ?_
        refine layer_extends _ s.next bs ?_
        rw [frame?_pushChild, if_pos rfl]
      have hbinding : ((∅ : Std.TreeMap String Value).insert b.1 b.2)[x]? =
          [b].lookup x := by
        obtain ⟨y, v⟩ := b
        rw [Std.TreeMap.getElem?_insert]
        by_cases hx : y = x
        · subst hx
          simp
        · have hx' : (x == y) = false := beq_false_of_ne fun h => hx h.symm
          simp [hx, hx', List.lookup_cons]
      calc s'.lookup (s.layer scope (b :: bs)).2 x
          = (bs.reverse.lookup x).or (s'.lookup s.next x) := ih hlayers
        _ = (bs.reverse.lookup x).or (([b].lookup x).or (s'.lookup scope x)) := by
            rw [lookup_of_frame hs' x hframe rfl, hbinding]
        _ = ((b :: bs).reverse.lookup x).or (s'.lookup scope x) := by
            rw [List.reverse_cons, List.lookup_append, Option.or_assoc]

end Store

end Curried
