import Curried.Proofs.NormalForm
import Curried.Proofs.Reference
import Curried.Proofs.StoreGrowth

/-!
# Frames and lists of arguments

How the values of the reference evaluator stand for values in a store.

**Chains.**  A function that has received some arguments has captured a chain of
frames with one name each, the latest argument first, that ends at the frame of
the root.  `Captures s received scope` reads such a chain off;
`Represents s a v` says that the value `a` of the reference evaluator stands for
the value `v`.  The two go together, since arguments may be functions.

**Stability.**  Both depend on no frame but those of the chain, and the frame of
the root is not one of them.  So they survive whatever happens to the root.

**Globals.**  `Agrees s globals` says that the frame of the root binds the names
of the globals to what they stand for.
-/

namespace Curried

/-- All frames but that of the root are as they were. -/
def Store.Retains (s s' : Store) : Prop :=
  ∀ ⦃scope : Scope⦄ ⦃f : Frame⦄, scope ≠ Scope.root → s.frame? scope = some f →
    s'.frame? scope = some f

theorem Store.Extends.retains
    {s s' : Store}
    (h : s.Extends s') :
    s.Retains s' :=
  fun _ _ _ hf => h hf

theorem Store.retains_define
    (s : Store) (name : String) (value : Value) :
    s.Retains (s.define Scope.root name value) := by
  intro scope f hne hf
  rw [frame?_define, if_neg hne]
  exact hf

mutual

/-- A value of the reference evaluator stands for a value in a store. -/
inductive Represents (s : Store) : Reference.Value → Value → Prop
  | unit :
      Represents s .unit .unit
  | number (x : Float) :
      Represents s (.number x) (.number x)
  | text (w : String) :
      Represents s (.text w) (.text w)
  | function {received : List (String × Reference.Value)} {parameter : String}
      {others : List String} {c : Closure} (id : Nat) :
      c.parameters = parameter :: others → Captures s received c.scope →
      IsMatch c.body →
      c.table = Table.empty →
      Represents s (.function c.name received parameter others c.body)
        (.function id c)
  | untouched (f : Reference.Builtin) (id : Nat) :
      Represents s (.builtin f none) (.builtin id f.name [])
  | started {a : Reference.Value} {v : Value} (f : Reference.Builtin) (id : Nat) :
      Represents s a v →
      Represents s (.builtin f (some a)) (.builtin id f.name [v])

/-- A list of arguments stands for the chain of frames from a scope to the
root. -/
inductive Captures (s : Store) : List (String × Reference.Value) → Scope → Prop
  | root :
      Captures s [] Scope.root
  | frame {x : String} {a : Reference.Value} {v : Value}
      {received : List (String × Reference.Value)} {scope parent : Scope} :
      s.frame? scope = some ⟨(∅ : Std.TreeMap String Value).insert x v,
        some parent⟩ →
      parent.index < scope.index → Represents s a v → Captures s received parent →
      Captures s ((x, a) :: received) scope

end

mutual

theorem Represents.retain
    {s s' : Store} (hs : s.Retains s')
    {a : Reference.Value} {v : Value} (h : Represents s a v) :
    Represents s' a v :=
  match h with
  | .unit => .unit
  | .number x => .number x
  | .text w => .text w
  | .function id hparameters hcaptures hbody htable =>
      .function id hparameters (Captures.retain hs hcaptures) hbody htable
  | .untouched f id => .untouched f id
  | .started f id hfirst => .started f id (Represents.retain hs hfirst)
termination_by structural h

theorem Captures.retain
    {s s' : Store} (hs : s.Retains s')
    {received : List (String × Reference.Value)} {scope : Scope}
    (h : Captures s received scope) :
    Captures s' received scope :=
  match h with
  | .root => .root
  | .frame hframe hless hvalue hparent => by
      refine .frame (hs ?_ hframe) hless (Represents.retain hs hvalue)
        (Captures.retain hs hparent)
      -- the root has the smallest number, so no frame with a parent is the root
      rintro rfl
      exact Nat.not_lt_zero _ hless
termination_by structural h

end

/-- What stands for a value looks like it. -/
theorem Represents.appearance
    {s : Store} {a : Reference.Value} {v : Value}
    (h : Represents s a v) :
    a.appearance = v.appearance := by
  cases h with
  | @function _ parameter others c id hparameters =>
      have harity : c.arity = others.length + 1 := by
        rw [← c.length_parameters, hparameters]
        rfl
      rw [Value.appearance, Value.display, harity]
      exact congrArg (Appearance.mk _ _) (congrArg some hparameters).symm
  | _ => rfl

theorem Represents.map_appearance
    {s : Store} {x : Option Reference.Value} {y : Option Value}
    (h : Option.Rel (Represents s) x y) :
    x.map Reference.Value.appearance = y.map Value.appearance := by
  cases h with
  | none => rfl
  | some hv => exact congrArg some hv.appearance

theorem Represents.retain_rel
    {s s' : Store} (hs : s.Retains s')
    {x : Option Reference.Value} {y : Option Value}
    (h : Option.Rel (Represents s) x y) :
    Option.Rel (Represents s') x y := by
  cases h with
  | none => exact .none
  | some hv => exact .some (hv.retain hs)

/-- What is captured by a function comes to light in the order in which a chain
of frames is searched. -/
theorem Captures.lookupWithin
    {s : Store} {globals : Reference.Globals} {f : Frame}
    (hroot : s.frame? Scope.root = some f) (hparent : f.parent = none)
    (hglobals : ∀ x : String, Option.Rel (Represents s) globals[x]? f.bindings[x]?)
    (x : String) :
    ∀ {received : List (String × Reference.Value)} {scope : Scope} {n : Nat},
      Captures s received scope → scope.index < n →
      Option.Rel (Represents s) (Reference.resolve globals received x)
        (s.lookupWithin x n scope)
  | [], _, n + 1, .root, _ => by
      have h := hglobals x
      simp only [Reference.resolve, List.lookup_nil, Option.none_or,
        Store.lookupWithin, hroot, hparent]
      cases hv : f.bindings[x]? with
      | none => rwa [hv] at h
      | some v => rwa [hv] at h
  | (y, a) :: received, scope, n + 1, .frame hframe hless hvalue hchain, hn => by
      have ih :=
        lookupWithin hroot hparent hglobals x hchain
          (Nat.lt_of_lt_of_le hless (Nat.le_of_lt_succ hn))
      by_cases hxy : x = y
      · subst hxy
        simpa [Reference.resolve, Store.lookupWithin, hframe]
          using Option.Rel.some hvalue
      · have hyx : y ≠ x := fun h => hxy h.symm
        have hne : (x == y) = false := by simpa using hxy
        simpa [Reference.resolve, Store.lookupWithin, hframe, List.lookup_cons,
          hne, hyx, Std.TreeMap.getElem?_insert] using ih

/-- The frame of the root binds the names of the globals to what they stand for,
and nothing is around it. -/
def Agrees (s : Store) (globals : Reference.Globals) : Prop :=
  ∃ f : Frame, s.frame? Scope.root = some f ∧ f.parent = none ∧
    ∀ x : String, Option.Rel (Represents s) globals[x]? f.bindings[x]?

namespace Agrees

variable {s s' : Store} {globals : Reference.Globals}

theorem lookup
    (h : Agrees s globals)
    {received : List (String × Reference.Value)} {scope : Scope}
    (hscope : Captures s received scope)
    (x : String) :
    Option.Rel (Represents s) (Reference.resolve globals received x)
      (s.lookup scope x) := by
  obtain ⟨f, hroot, hparent, hglobals⟩ := h
  exact hscope.lookupWithin hroot hparent hglobals x (Nat.lt_succ_self _)

theorem extend
    (h : Agrees s globals) (hs : s.Extends s') :
    Agrees s' globals := by
  obtain ⟨f, hroot, hparent, hglobals⟩ := h
  refine ⟨f, hs hroot, hparent, ?_⟩
  intro x
  exact Represents.retain_rel hs.retains (hglobals x)

/-- A frame that is added for an argument makes the chain longer. -/
theorem pushChild
    (h : Agrees s globals)
    {received : List (String × Reference.Value)} {scope : Scope}
    (hscope : Captures s received scope)
    {a : Reference.Value} {v : Value} (hv : Represents s a v)
    (x : String) :
    Captures (s.pushChild scope x v) ((x, a) :: received) s.next := by
  have hs := (Store.Extends.pushChild s scope x v).retains
  have hframe : ∃ f, s.frame? scope = some f := by
    cases hscope with
    | root =>
        obtain ⟨f, hroot, -⟩ := h
        exact ⟨f, hroot⟩
    | frame hframe => exact ⟨_, hframe⟩
  have hless : scope.index < s.next.index := by
    obtain ⟨f, hf⟩ := hframe
    exact (Array.getElem?_eq_some_iff.1 hf).1
  refine .frame ?_ hless (hv.retain hs) (hscope.retain hs)
  rw [Store.frame?_pushChild, if_pos rfl]

/-- Binding a name on both sides. -/
theorem define
    (h : Agrees s globals)
    {a : Reference.Value} {v : Value} (hv : Represents s a v)
    (x : String) :
    Agrees (s.define Scope.root x v) (globals.insert x a) := by
  obtain ⟨f, hroot, hparent, hglobals⟩ := h
  have hs := s.retains_define x v
  refine ⟨{ f with bindings := f.bindings.insert x v }, ?_, hparent, ?_⟩
  · rw [Store.frame?_define, if_pos rfl, hroot]
    rfl
  · intro y
    by_cases hxy : x = y
    · simpa [Std.TreeMap.getElem?_insert, hxy] using Option.Rel.some (hv.retain hs)
    · rw [Std.TreeMap.getElem?_insert, Std.TreeMap.getElem?_insert,
        if_neg (by simpa using hxy), if_neg (by simpa using hxy)]
      exact Represents.retain_rel hs (hglobals y)

/-- The root and the globals have the same names, with values that look the
same. -/
theorem survey
    (h : Agrees s globals) :
    s.survey Scope.root = Reference.survey globals := by
  have hlookup : ∀ x, (s.lookup Scope.root x).map Value.appearance =
      globals[x]?.map Reference.Value.appearance := by
    intro x
    exact (Represents.map_appearance (h.lookup .root x)).symm
  obtain ⟨f, hroot, hparent, hglobals⟩ := h
  have hkeys : f.bindings.keys = globals.keys := (keys_eq_of_rel hglobals).symm
  simp only [Store.survey, Store.names, hroot, Reference.survey, hkeys, hlookup]

end Agrees

end Curried
