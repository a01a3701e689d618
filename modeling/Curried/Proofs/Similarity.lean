import Curried.Proofs.Sights
import Mathlib.Logic.Relation

/-!
# Similar trees

Parentheses around an expression do not change what it means, and neither do
nodes without meaning around a single one.  Nor does the text of a node that has
children, unless the node is there for its text.

**Roles.**  `Kind.role` tells what a child of a node is there for: to be
evaluated, to be read as a name, to hold parameters, or for nothing.  The
equation that a name is bound to is evaluated, but it is also asked whether it
is one, which parentheses around it would hide.

**Similarity.**  A `Tree.Change` puts a tree that is evaluated in parentheses or
in a node without meaning, or changes a text that is not read, at one place of
the tree.  Trees are similar if any number of changes, made or undone, lead from
one to the other.

**Results.**
* `Tree.Similar.code_eq`: similar trees have the same code.
* `similar_trees_show_same`: evaluating similar trees cannot be told apart.
-/

namespace Curried

/-- What a node is there for. -/
inductive Role where
  /-- It is evaluated. -/
  | evaluated
  /-- It is evaluated, and its tag is read as well. -/
  | equation
  /-- Its tag and its text are read. -/
  | name
  /-- Its children are read as names. -/
  | patterns
  /-- It is not looked at. -/
  | idle
deriving DecidableEq

/-- What the child with the given index is there for. -/
def Kind.role : Kind → Nat → Role
  | .declarations, _ => .evaluated
  | .apply, _ => .evaluated
  | .other, _ => .evaluated
  | .parens, 1 => .evaluated
  | .equation, 0 => .name
  | .equation, 1 => .evaluated
  | .bind, 0 => .name
  | .bind, 1 => .equation
  | .function, 0 => .name
  | .function, 1 => .patterns
  | .function, 2 => .evaluated
  | .infixOp, 1 => .name
  | .infixOp, _ => .evaluated
  | _, _ => .idle

/-- What a child is there for, given what its parent is there for: what stands
among parameters is a parameter. -/
def Role.child (role : Role) (kind : Kind) (i : Nat) : Role :=
  match role with
  | .patterns => .name
  | _ => kind.role i

/-- Two nodes in that role are the same in all that is read of them. -/
def Role.Same : Role → Tree → Tree → Prop
  | .evaluated, t, t' => t.code = t'.code
  | .equation, t, t' => t.tag = t'.tag ∧ t.code = t'.code
  | .name, t, t' => t.tag = t'.tag ∧ t.text = t'.text
  | .patterns, t, t' => parameterNames t.children = parameterNames t'.children
  | .idle, _, _ => True

theorem Role.same_refl (role : Role) (t : Tree) : role.Same t t := by
  cases role with
  | evaluated | patterns => exact rfl
  | equation | name => exact ⟨rfl, rfl⟩
  | idle => trivial

theorem Role.Same.code_eq
    {t t' : Tree}
    (h : Role.Same .evaluated t t') :
    t.code = t'.code :=
  h

namespace Tree

/-- One change to a tree that stands in the given role. -/
inductive Change : Role → Tree → Tree → Prop
  | parens (text : String) (opening inner closing : Tree) :
      Change .evaluated inner ⟨"parens", text, [opening, inner, closing]⟩
  | wrapper (tag text : String) (inner : Tree) :
      Kind.ofTag tag = .other → Change .evaluated inner ⟨tag, text, [inner]⟩
  | text {role : Role} (tag text text' : String) (children : List Tree) :
      role ≠ .name → children ≠ [] →
      Change role ⟨tag, text, children⟩ ⟨tag, text', children⟩
  | child {role : Role} {i : Nat} {c c' : Tree} (tag text : String)
      (children : List Tree) :
      children[i]? = some c → Change (role.child (Kind.ofTag tag) i) c c' →
      Change role ⟨tag, text, children⟩ ⟨tag, text, children.set i c'⟩

/-- Changes, made or undone, lead from one tree to the other. -/
def Similar : Tree → Tree → Prop :=
  Relation.EqvGen (Change .evaluated)

theorem kind_eq_of_tag
    {t t' : Tree}
    (h : t.tag = t'.tag) :
    t.kind = t'.kind := by
  rw [kind, kind, h]

theorem code_parens
    (text : String) (opening inner closing : Tree) :
    code ⟨"parens", text, [opening, inner, closing]⟩ = inner.code := by
  rw [code_eq_plan]
  rfl

theorem code_wrapper
    {tag : String}
    (htag : Kind.ofTag tag = .other) (text : String) (inner : Tree) :
    code ⟨tag, text, [inner]⟩ = inner.code := by
  rw [code_eq_plan, plan.eq_def]
  simp only [htag]
  rfl

end Tree

namespace Plan

theorem code_ofFunction
    {name name' patterns patterns' body body' : Tree}
    (hname : Role.Same .name name name')
    (hpatterns : Role.Same .patterns patterns patterns')
    (hbody : Role.Same .evaluated body body') :
    (ofFunction name patterns body).code =
      (ofFunction name' patterns' body').code := by
  have hbody : body.code = body'.code := hbody
  have hpatterns : parameterNames patterns.children =
      parameterNames patterns'.children := hpatterns
  unfold ofFunction
  rw [hpatterns, Tree.kind_eq_of_tag hname.1, hname.1, hname.2]
  split
  · rfl
  · split
    · rfl
    · rfl
    · simp only [code, hbody]

theorem code_ofBind
    {target target' value value' : Tree}
    (htarget : Role.Same .name target target')
    (hvalue : Role.Same .equation value value') :
    (ofBind target value).code = (ofBind target' value').code := by
  unfold ofBind
  rw [Tree.kind_eq_of_tag htarget.1, Tree.kind_eq_of_tag hvalue.1, htarget.1,
    htarget.2, hvalue.1]
  split
  · rfl
  · split
    · rfl
    · simp only [code, hvalue.2]

theorem code_ofEquation
    {sign sign' body body' : Tree}
    (hsign : Role.Same .name sign sign') (hbody : Role.Same .evaluated body body') :
    (ofEquation sign body).code = (ofEquation sign' body').code := by
  unfold ofEquation
  rw [hsign.2]
  split
  · exact hbody
  · rfl

end Plan

theorem parameterNames_congr
    {ts ts' : List Tree}
    (h : List.Forall₂ (Role.Same .name) ts ts') :
    parameterNames ts = parameterNames ts' := by
  induction h with
  | nil => rfl
  | cons ht _ ih =>
      rw [parameterNames, parameterNames, ih, Tree.kind_eq_of_tag ht.1,
        ht.1, ht.2]

/-- How many children a node of that kind must have, if that is settled. -/
def Kind.childCount? : Kind → Option Nat
  | .equation => some 2
  | .bind => some 2
  | .apply => some 2
  | .function => some 3
  | .infixOp => some 3
  | .parens => some 3
  | _ => none

namespace Tree

theorem plan_of_length_ne
    {tag text : String} {children : List Tree} {n : Nat}
    (hcount : (Kind.ofTag tag).childCount? = some n)
    (hlength : children.length ≠ n) :
    plan ⟨tag, text, children⟩ = .fail (.childCount tag n children.length) := by
  rw [plan.eq_def]
  dsimp only
  cases hkind : Kind.ofTag tag <;> rw [hkind] at hcount <;> cases hcount <;>
    rcases children with _ | ⟨_, _ | ⟨_, _ | ⟨_, _ | ⟨_, _⟩⟩⟩⟩ <;>
      first | rfl | exact absurd rfl hlength

/-- In all that a node of that kind reads of its children, these are the
same. -/
structure SameChildren (kind : Kind) (ts ts' : List Tree) : Prop where
  length : ts.length = ts'.length
  same : ∀ (i : Nat) (c c' : Tree), ts[i]? = some c → ts'[i]? = some c' →
    (kind.role i).Same c c'

namespace SameChildren

variable {kind : Kind} {ts ts' : List Tree} (h : SameChildren kind ts ts')
include h

theorem two
    (hlength : ts.length = 2) :
    ∃ a b a' b', ts = [a, b] ∧ ts' = [a', b'] ∧ (kind.role 0).Same a a' ∧
      (kind.role 1).Same b b' := by
  obtain ⟨a, b, rfl⟩ := List.length_eq_two.1 hlength
  obtain ⟨a', b', rfl⟩ := List.length_eq_two.1 h.length.symm
  exact ⟨a, b, a', b', rfl, rfl, h.same 0 a a' rfl rfl, h.same 1 b b' rfl rfl⟩

theorem three
    (hlength : ts.length = 3) :
    ∃ a b c a' b' c', ts = [a, b, c] ∧ ts' = [a', b', c'] ∧
      (kind.role 0).Same a a' ∧ (kind.role 1).Same b b' ∧
      (kind.role 2).Same c c' := by
  obtain ⟨a, b, c, rfl⟩ := List.length_eq_three.1 hlength
  obtain ⟨a', b', c', rfl⟩ := List.length_eq_three.1 h.length.symm
  exact ⟨a, b, c, a', b', c', rfl, rfl, h.same 0 a a' rfl rfl,
    h.same 1 b b' rfl rfl, h.same 2 c c' rfl rfl⟩

theorem codes_eq
    (hrole : ∀ i, kind.role i = .evaluated) :
    ts.map code = ts'.map code := by
  refine List.ext_getElem (by simpa using h.length) fun i hi hi' => ?_
  have hts : i < ts.length := by simpa using hi
  have hts' : i < ts'.length := by simpa using hi'
  have hsame :=
    h.same i ts[i] ts'[i] (List.getElem?_eq_getElem hts)
      (List.getElem?_eq_getElem hts')
  rw [hrole i] at hsame
  rw [List.getElem_map, List.getElem_map]
  exact hsame

end SameChildren

/-- Nodes of the same tag have the same code if their children are the same in
all that is read of them, and if they themselves have the same text or any
children at all. -/
theorem code_congr
    {tag text text' : String} {children children' : List Tree}
    (htext : children = [] → text = text')
    (h : SameChildren (Kind.ofTag tag) children children') :
    code ⟨tag, text, children⟩ = code ⟨tag, text', children'⟩ := by
  rw [code_eq_plan, code_eq_plan]
  -- a node with the wrong number of children fails with that number, so only
  -- the right one is left
  have hfit : ∀ {n : Nat}, (Kind.ofTag tag).childCount? = some n →
      (children.length = n →
        (plan ⟨tag, text, children⟩).code =
          (plan ⟨tag, text', children'⟩).code) →
      (plan ⟨tag, text, children⟩).code = (plan ⟨tag, text', children'⟩).code := by
    intro n hcount hright
    by_cases hn : children.length = n
    · exact hright hn
    · rw [plan_of_length_ne hcount hn, plan_of_length_ne hcount (h.length ▸ hn),
        h.length]
  have hlength := h.length
  cases hkind : Kind.ofTag tag <;> rw [hkind] at h hfit
  case declarations =>
      simp only [plan.eq_def, hkind, Plan.code, h.codes_eq fun _ => rfl]
  case apply =>
      refine hfit rfl fun hn => ?_
      obtain ⟨function, argument, _, _, rfl, rfl, hfunction, hargument⟩ := h.two hn
      simp only [plan.eq_def, hkind, Plan.code, hfunction.code_eq,
        hargument.code_eq]
  case equation =>
      refine hfit rfl fun hn => ?_
      obtain ⟨sign, body, _, _, rfl, rfl, hsign, hbody⟩ := h.two hn
      simp only [plan.eq_def, hkind]
      exact Plan.code_ofEquation hsign hbody
  case bind =>
      refine hfit rfl fun hn => ?_
      obtain ⟨target, value, _, _, rfl, rfl, htarget, hvalue⟩ := h.two hn
      simp only [plan.eq_def, hkind]
      exact Plan.code_ofBind htarget hvalue
  case function =>
      refine hfit rfl fun hn => ?_
      obtain ⟨name, patterns, body, _, _, _, rfl, rfl, hname, hpatterns,
          hbody⟩ := h.three hn
      simp only [plan.eq_def, hkind]
      exact Plan.code_ofFunction hname hpatterns hbody
  case infixOp =>
      refine hfit rfl fun hn => ?_
      obtain ⟨left, operator, right, _, _, _, rfl, rfl, hleft, hoperator,
          hright⟩ := h.three hn
      simp only [plan.eq_def, hkind, Plan.code, hleft.code_eq, hoperator.2,
        hright.code_eq]
  case parens =>
      refine hfit rfl fun hn => ?_
      obtain ⟨opening, inner, closing, _, _, _, rfl, rfl, -, hinner, -⟩ :=
        h.three hn
      simp only [plan.eq_def, hkind, Plan.code, hinner.code_eq]
  case other =>
      rcases children with _ | ⟨a, _ | ⟨b, rest⟩⟩ <;>
        rcases children' with _ | ⟨a', _ | ⟨b', rest'⟩⟩ <;>
        simp only [List.length_cons, List.length_nil] at hlength <;> try omega
      · simp only [plan.eq_def, hkind, htext]
      · have hinner := h.same 0 a a' rfl rfl
        simp only [plan.eq_def, hkind, Plan.code, hinner.code_eq]
      · simp only [plan.eq_def, hkind, List.length_cons,
          Nat.add_right_cancel hlength]
  all_goals
      -- literals and names: with children they fail with their number, without
      -- children the text is the same
      rcases children with _ | ⟨a, rest⟩ <;>
        rcases children' with _ | ⟨a', rest'⟩ <;>
        simp only [List.length_cons, List.length_nil] at hlength <;> try omega
      · simp only [plan.eq_def, hkind, htext]
      · simp only [plan.eq_def, hkind, List.length_cons,
          Nat.add_right_cancel hlength]

/-- After one member has been replaced by a related one, all members are related
to those in the same place. -/
theorem rel_set
    {R : Nat → Tree → Tree → Prop} {ts : List Tree} {i : Nat} {c c' : Tree}
    (hc : ts[i]? = some c) (hR : R i c c') (hrefl : ∀ j a, R j a a) (j : Nat)
    (a a' : Tree)
    (ha : ts[j]? = some a) (ha' : (ts.set i c')[j]? = some a') :
    R j a a' := by
  by_cases hij : i = j
  · subst hij
    obtain rfl := Option.some.inj (hc.symm.trans ha)
    obtain ⟨hi, -⟩ := List.getElem?_eq_some_iff.1 hc
    rw [List.getElem?_set_self hi] at ha'
    obtain rfl := Option.some.inj ha'
    exact hR
  · rw [List.getElem?_set_ne hij] at ha'
    obtain rfl := Option.some.inj (ha.symm.trans ha')
    exact hrefl j a

/-- A change keeps all that is read of the tree in its role. -/
theorem Change.same
    {role : Role} {t t' : Tree}
    (h : Change role t t') :
    role.Same t t' := by
  induction h with
  | parens text opening inner closing =>
      exact (code_parens text opening inner closing).symm
  | wrapper tag text inner htag =>
      exact (code_wrapper htag text inner).symm
  | @text role tag text text' children hrole hchildren =>
      have hcode : code ⟨tag, text, children⟩ = code ⟨tag, text', children⟩ := by
        refine code_congr (fun hnil => absurd hnil hchildren) ⟨rfl,
          fun i c c' hc hc' => ?_⟩
        obtain rfl := Option.some.inj (hc.symm.trans hc')
        exact Role.same_refl _ c
      cases role with
      | evaluated => exact hcode
      | equation => exact ⟨rfl, hcode⟩
      | patterns => exact rfl
      | idle => trivial
      | name => exact absurd rfl hrole
  | @child role i c c' tag text children hc _ ih =>
      have hchild :=
        rel_set (R := fun j => (role.child (Kind.ofTag tag) j).Same) hc ih
      have hcode : (∀ k j, role.child k j = k.role j) →
          code ⟨tag, text, children⟩ = code ⟨tag, text, children.set i c'⟩ := by
        intro hrole
        simp only [hrole] at hchild
        exact code_congr (fun _ => rfl) ⟨by simp,
          hchild fun _ a => Role.same_refl _ a⟩
      cases role with
      | evaluated => exact hcode fun _ _ => rfl
      | equation => exact ⟨rfl, hcode fun _ _ => rfl⟩
      | name => exact ⟨rfl, rfl⟩
      | idle => trivial
      | patterns =>
          refine parameterNames_congr
            (List.forall₂_iff_get.2 ⟨by simp, fun j hj hj' => ?_⟩)
          exact hchild (fun _ a => Role.same_refl .name a) j _ _
            (List.getElem?_eq_getElem hj) (List.getElem?_eq_getElem hj')

/-- Similar trees have the same code. -/
theorem Similar.code_eq
    {t t' : Tree}
    (h : t.Similar t') :
    t.code = t'.code := by
  induction h with
  | rel _ _ hchange => exact hchange.same
  | refl _ => rfl
  | symm _ _ _ ih => exact ih.symm
  | trans _ _ _ _ _ ih ih' => exact ih.trans ih'

end Tree

/-- **Similar trees mean the same.**  In every session, in every scope and under
every table, with a host that sees of functions only their type and display,
evaluating one of two similar trees or the other gives the same error or values
of the same appearance, and leaves the same names with values of the same
appearance.  No moves that are made afterwards show which of the two it was,
whatever they call or evaluate. -/
theorem similar_trees_show_same
    {t t' : Tree} (h : t.Similar t')
    {host : Host} (hhost : host.Discreet (.twins .code) ())
    (s : Session) (table : Table) (scope : Scope) :
    ShowsSame host s scope (runTree host table scope t s.machine)
      (runTree host table scope t' s.machine) := by
  refine showsSame_of_twin hhost ?_ s scope
  exact runTree_twin hhost s.machine.twin_refl h.code_eq fun _ _ => rfl

/-- A tree in parentheses. -/
def parenthesised (t : Tree) : Tree :=
  ⟨"parens", "", [.leaf "(" "(", t, .leaf ")" ")"]⟩

/-- A body that puts the argument before a text. -/
def joining : Tree :=
  ⟨"infix", "", [.leaf "variable" "x", .leaf "operator" "+",
    .leaf "string" "\"b\""]⟩

-- A binding asks for an equation, and an equation in parentheses is none.
example :
    failure? (runTree Host.standard Table.empty Scope.root
      ⟨"bind", "", [.leaf "variable" "y",
        parenthesised ⟨"match", "", [.leaf "=" "=", joining]⟩]⟩
        Machine.withRoot).1 =
      some (.notEquation "parens") := by
  decide +kernel

/-- A function with the given body, under an equation with the given text, and a
call of the function. -/
def callOf (text : String) (body : Tree) : Tree :=
  ⟨"declarations", "", [
    ⟨"function", "",
      [.leaf "variable" "f", ⟨"patterns", "", [.leaf "variable" "x"]⟩,
      ⟨"match", text, [.leaf "=" "=", body]⟩]⟩,
    ⟨"apply", "", [.leaf "variable" "f", .leaf "string" "\"a\""]⟩]⟩

/-- The body of the function is put in parentheses, the text of the equation
around it is changed, and the whole is put in a node without meaning. -/
def callInDisguise : Tree :=
  ⟨"program", "", [callOf "anything" (parenthesised joining)]⟩

theorem callInDisguise_shows_same :
    (callOf "" joining).Similar callInDisguise ∧
    (runTree Host.standard Table.empty Scope.root (callOf "" joining)
      Machine.withRoot).1.toOption.map Value.display = some "ab" ∧
    ShowsSame Host.standard Session.initial Scope.root
      (runTree Host.standard Table.empty Scope.root (callOf "" joining)
        Machine.withRoot)
      (runTree Host.standard Table.empty Scope.root callInDisguise
        Machine.withRoot) := by
  have hbody : Tree.Change .evaluated (callOf "" joining)
      (callOf "" (parenthesised joining)) :=
    .child (i := 0) _ _ _ rfl
      (.child (i := 2) _ _ _ rfl
        (.child (i := 1) _ _ _ rfl (.parens _ _ joining _)))
  have htext : Tree.Change .evaluated (callOf "" (parenthesised joining))
      (callOf "anything" (parenthesised joining)) :=
    .child (i := 0) _ _ _ rfl
      (.child (i := 2) _ _ _ rfl (.text _ _ _ _ (by decide) (by simp)))
  have hwhole : Tree.Change .evaluated
      (callOf "anything" (parenthesised joining)) callInDisguise :=
    .wrapper "program" "" _ rfl
  have hsimilar : (callOf "" joining).Similar callInDisguise :=
    .trans _ _ _ (.rel _ _ hbody) (.trans _ _ _ (.rel _ _ htext) (.rel _ _ hwhole))
  refine ⟨hsimilar, by decide +kernel, ?_⟩
  exact similar_trees_show_same hsimilar (Host.standard_discreet _ _)
    Session.initial Table.empty Scope.root

end Curried
