import Curried.Store
import Mathlib.Order.Defs.Unbundled

/-!
# How a store may change

**Frames.**  What `frame?` gives after a frame has been added and after a name
has been bound, and how many frames there are.

**Two preorders.**  `Store.Extends` says that frames were only added.
`Store.Keeps scope written` says that besides added frames only the frame of
`scope` has changed, that it has lost no name, and that no binding of it has
changed but those of the names that `written` admits.
-/

namespace Curried

/-- What a map gives after an insertion was inserted or was there before. -/
theorem eq_or_getElem?_of_insert
    {α : Type} {t : Std.TreeMap String α} {x y : String} {a b : α}
    (h : (t.insert x a)[y]? = some b) :
    b = a ∨ t[y]? = some b := by
  rw [Std.TreeMap.getElem?_insert] at h
  split at h
  · exact Or.inl (Option.some.inj h).symm
  · exact Or.inr h

/-- Maps whose values are related name by name have the same names. -/
theorem keys_eq_of_rel
    {α β : Type} {R : α → β → Prop} {t : Std.TreeMap String α}
    {u : Std.TreeMap String β}
    (h : ∀ x : String, Option.Rel R t[x]? u[x]?) :
    t.keys = u.keys := by
  have hmem : ∀ x, x ∈ t.keys ↔ x ∈ u.keys := by
    intro x
    rw [Std.TreeMap.mem_keys, Std.TreeMap.mem_keys,
      Std.TreeMap.mem_iff_isSome_getElem?, Std.TreeMap.mem_iff_isSome_getElem?]
    have hx := h x
    generalize t[x]? = a, u[x]? = b at hx
    cases hx <;> simp
  have hperm : t.keys.Perm u.keys :=
    (List.perm_ext_iff_of_nodup Std.TreeMap.nodup_keys Std.TreeMap.nodup_keys).2 hmem
  refine hperm.eq_of_pairwise ?_ Std.TreeMap.ordered_keys Std.TreeMap.ordered_keys
  intro x y _ _ hxy hyx
  exact absurd hyx (Std.OrientedCmp.not_lt_of_lt hxy)

theorem rel_imp
    {α β : Type} {R S : α → β → Prop} {a : Option α} {b : Option β}
    (h : Option.Rel R a b) (himp : ∀ x y, R x y → S x y) :
    Option.Rel S a b := by
  cases h with
  | none => exact .none
  | some hab => exact .some (himp _ _ hab)

/-- Inserting related values under the same name. -/
theorem rel_insert
    {α β : Type} {R : α → β → Prop} {t : Std.TreeMap String α}
    {u : Std.TreeMap String β} {a : α} {b : β}
    (h : ∀ x : String, Option.Rel R t[x]? u[x]?) (hab : R a b) (x y : String) :
    Option.Rel R (t.insert x a)[y]? (u.insert x b)[y]? := by
  rw [Std.TreeMap.getElem?_insert, Std.TreeMap.getElem?_insert]
  split
  · exact .some hab
  · exact h y

namespace Store

@[simp] theorem frame?_push
    (s : Store) (f : Frame) (scope : Scope) :
    (s.push f).frame? scope = if scope = s.next then some f
      else s.frame? scope := by
  obtain ⟨i⟩ := scope
  simp [frame?, push, next, Array.getElem?_push]

@[simp] theorem frame?_pushChild
    (s : Store) (parent : Scope) (name : String) (value : Value) (scope : Scope) :
    (s.pushChild parent name value).frame? scope =
      if scope = s.next then
        some ⟨(∅ : Std.TreeMap String Value).insert name value, some parent⟩
      else
        s.frame? scope := by
  simp [pushChild]

/-- What `frame?` gives after one frame has been changed. -/
theorem frame?_modify
    (s : Store) (scope other : Scope) (g : Frame → Frame) :
    frame? ⟨s.frames.modify scope.index g⟩ other = if other =
      scope then (s.frame? scope).map g else s.frame? other := by
  obtain ⟨i⟩ := scope
  obtain ⟨j⟩ := other
  by_cases h : i = j
  · subst h
    simp [frame?, Array.getElem?_modify]
  · have h' : j ≠ i := fun e => h e.symm
    simp [frame?, Array.getElem?_modify, h, h']

@[simp] theorem frame?_define
    (s : Store) (scope other : Scope) (name : String) (value : Value) :
    (s.define scope name value).frame? other =
      if other = scope then
        (s.frame? scope).map fun f =>
          { f with bindings := f.bindings.insert name value }
      else
        s.frame? other :=
  s.frame?_modify scope other _

@[simp] theorem size_push
    (s : Store) (f : Frame) :
    (s.push f).frames.size = s.frames.size + 1 := by
  simp [Store.push]

@[simp] theorem size_pushChild
    (s : Store) (scope : Scope) (x : String) (v : Value) :
    (s.pushChild scope x v).frames.size = s.frames.size + 1 :=
  s.size_push _

@[simp] theorem size_define
    (s : Store) (scope : Scope) (x : String) (v : Value) :
    (s.define scope x v).frames.size = s.frames.size := by
  simp [Store.define]

@[simp] theorem size_clear
    (s : Store) (scope : Scope) :
    (s.clear scope).frames.size = s.frames.size := by
  simp [Store.clear]

theorem exists_frame
    {s : Store} {scope : Scope}
    (h : scope.index < s.frames.size) :
    ∃ f, s.frame? scope = some f :=
  ⟨s.frames[scope.index], Array.getElem?_eq_getElem h⟩

/-- The scope of the next frame has no frame yet. -/
theorem ne_next_of_frame?
    {s : Store} {scope : Scope} {f : Frame}
    (h : s.frame? scope = some f) :
    scope ≠ s.next := by
  rintro rfl
  simp [frame?, next] at h

/-- Nothing has happened to the store but that frames were added. -/
def Extends (s s' : Store) : Prop :=
  ∀ ⦃scope : Scope⦄ ⦃f : Frame⦄, s.frame? scope = some f → s'.frame? scope = some f

namespace Extends

theorem refl (s : Store) : Extends s s :=
  fun _ _ h => h

theorem trans
    {a b c : Store}
    (hab : Extends a b) (hbc : Extends b c) :
    Extends a c :=
  fun _ _ h => hbc (hab h)

theorem size_le
    {a b : Store}
    (h : Extends a b) :
    a.frames.size ≤ b.frames.size := by
  refine Nat.le_of_not_lt fun hless => ?_
  obtain ⟨f, hf⟩ := exists_frame hless
  exact Nat.lt_irrefl _ (Array.getElem?_eq_some_iff.1 (h hf)).1

theorem push (s : Store) (f : Frame) : Extends s (s.push f) := by
  intro scope g h
  rw [frame?_push, if_neg (ne_next_of_frame? h)]
  exact h

theorem pushChild
    (s : Store) (parent : Scope) (name : String) (value : Value) :
    Extends s (s.pushChild parent name value) :=
  push s _

instance : IsPreorder Store Extends where
  refl := refl
  trans := fun _ _ _ => trans

end Extends

/-- Besides added frames only the frame of `scope` has changed.  It has the
parent and all the names it had, and the names that `written` does not admit
have the values they had. -/
structure Keeps (scope : Scope) (written : String → Prop) (s s' : Store) :
    Prop where
  others : ∀ ⦃other : Scope⦄ ⦃f : Frame⦄,
    other ≠ scope → s.frame? other = some f → s'.frame? other = some f
  own : ∀ ⦃f : Frame⦄, s.frame? scope = some f →
    ∃ f' : Frame, s'.frame? scope = some f' ∧
      f'.parent = f.parent ∧
      (∀ x, x ∈ f.bindings → x ∈ f'.bindings) ∧
      ∀ x, ¬ written x → f'.bindings[x]? = f.bindings[x]?

namespace Keeps

variable {scope : Scope} {written : String → Prop}

theorem refl (s : Store) : Keeps scope written s s where
  others := fun _ _ _ h => h
  own := fun f h => ⟨f, h, rfl, fun _ hx => hx, fun _ _ => rfl⟩

theorem trans
    {a b c : Store}
    (hab : Keeps scope written a b) (hbc : Keeps scope written b c) :
    Keeps scope written a c where
  others := fun _ _ hne h => hbc.others hne (hab.others hne h)
  own := by
    intro f hf
    obtain ⟨g, hg, hparent, hnames, hsame⟩ := hab.own hf
    obtain ⟨g', hg', hparent', hnames', hsame'⟩ := hbc.own hg
    refine ⟨g', hg', hparent'.trans hparent, ?_, ?_⟩
    · intro x hx
      exact hnames' x (hnames x hx)
    · intro x hx
      rw [hsame' x hx, hsame x hx]

instance : IsPreorder Store (Keeps scope written) where
  refl := refl
  trans := fun _ _ _ => trans

theorem mono
    {written' : String → Prop} {s s' : Store}
    (hsub : ∀ x, written x → written' x)
    (h : Keeps scope written s s') :
    Keeps scope written' s s' where
  others := h.others
  own := by
    intro f hf
    obtain ⟨g, hg, hparent, hnames, hsame⟩ := h.own hf
    exact ⟨g, hg, hparent, hnames, fun x hx => hsame x fun hw => hx (hsub x hw)⟩

/-- A store to which frames were only added keeps the frame of every scope. -/
theorem of_extends
    {s s' : Store}
    (h : Extends s s') :
    Keeps scope written s s' where
  others := fun _ _ _ hf => h hf
  own := fun f hf => ⟨f, h hf, rfl, fun _ hx => hx, fun _ _ => rfl⟩

theorem define
    {name : String}
    (s : Store) (value : Value) (h : written name) :
    Keeps scope written s (s.define scope name value) where
  others := by
    intro other f hne hf
    rw [frame?_define, if_neg hne]
    exact hf
  own := by
    intro f hf
    refine ⟨{ f with bindings := f.bindings.insert name value }, ?_, rfl, ?_, ?_⟩
    · rw [frame?_define, if_pos rfl, hf]
      rfl
    · intro x hx
      exact Std.TreeMap.mem_insert.2 (Or.inr hx)
    · intro x hx
      have hne : name ≠ x := by
        rintro rfl
        exact hx h
      simp [Std.TreeMap.getElem?_insert, hne]

/-- A name that is not written has the value it had, from wherever it is
seen. -/
theorem lookupWithin
    {s s' : Store} {x : String} {v : Value}
    (h : Keeps scope written s s') (hx : ¬ written x) :
    ∀ {n : Nat} {other : Scope}, s.lookupWithin x n other = some v →
      s'.lookupWithin x n other = some v
  | n + 1, other, hfound => by
      have hframe : ∀ {f : Frame}, s.frame? other = some f →
          ∃ f', s'.frame? other = some f' ∧ f'.parent = f.parent ∧
            f'.bindings[x]? = f.bindings[x]? := by
        intro f hf
        by_cases hother : other = scope
        · subst hother
          obtain ⟨f', hf', hparent, -, hsame⟩ := h.own hf
          exact ⟨f', hf', hparent, hsame x hx⟩
        · exact ⟨f, h.others hother hf, rfl, rfl⟩
      rw [Store.lookupWithin] at hfound ⊢
      cases hf : s.frame? other with
      | none =>
          rw [hf] at hfound
          cases hfound
      | some f =>
          obtain ⟨f', hf', hparent, hbinding⟩ := hframe hf
          rw [hf] at hfound
          simp only [hf', hparent, hbinding]
          cases hb : f.bindings[x]? with
          | some w => simpa only [hb] using hfound
          | none =>
              cases hp : f.parent with
              | none => simp only [hb, hp] at hfound; cases hfound
              | some parent =>
                  simp only [hb, hp] at hfound
                  exact h.lookupWithin hx hfound

theorem lookup
    {s s' : Store} {other : Scope} {x : String} {v : Value}
    (h : Keeps scope written s s') (hx : ¬ written x)
    (hfound : s.lookup other x = some v) :
    s'.lookup other x = some v :=
  h.lookupWithin hx hfound

/-- What is kept by work in a frame that was added just before leaves all
earlier frames as they were. -/
theorem extends_of_push
    {s s' : Store} {f : Frame}
    (h : Keeps s.next written (s.push f) s') :
    Extends s s' := by
  intro scope g hg
  have hne := ne_next_of_frame? hg
  exact h.others hne (Extends.push s f hg)

end Keeps

end Store

end Curried
