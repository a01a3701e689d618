import Curried.Proofs.ProgramReader

/-!
# What the trees of programs look like

**Shape.**  The children of the root are declarations, and each declaration has
the parts of its kind.

**Normal form.**  `NormalForm e` says node by node how the expressions in a tree
are put together: which operators may stand on which side of which, and that
only atoms are arguments.  The text of every node is the text of its children
with blanks between them.

**Leaves.**  `Woven source leaves` says that the leaves occur in the source one
after the other, and that nothing but blanks, separators and comments stands
between, before and behind them.

**Result.**  `parse_shape_and_leaves`: all of this holds of whatever is
accepted.
-/

namespace Curried

open Grammar Lexeme

/-- How an operator binds. -/
inductive Binding where
  | times
  | plus
  | custom
  | dollar
deriving DecidableEq

namespace Binding

/-- The sort of an operator. -/
def ofOperator (op : String) : Binding :=
  if op = "*" ∨ op = "/" then
    times
  else if op = "+" ∨ op = "-" then
    plus
  else if op = "$" then
    dollar
  else
    custom

/-- The operators that may be the outermost one on the left side. -/
def onLeft : Binding → List Binding
  | times => [times]
  | plus => [times, plus]
  | custom => [times, plus, custom]
  | dollar => [times, plus, custom]

/-- The operators that may be the outermost one on the right side. -/
def onRight : Binding → List Binding
  | times => []
  | plus => [times]
  | custom => [times, plus]
  | dollar => [times, plus, custom, dollar]

/-- The level of the expressions that an operator makes. -/
def level : Binding → Level
  | times => .product
  | plus => .sum
  | custom => .custom
  | dollar => .dollar

theorem mem_onLeft_of_rank
    {b k : Binding}
    (h : if b = dollar then k.level.rank < b.level.rank
      else k.level.rank ≤ b.level.rank) :
    k ∈ b.onLeft := by
  cases b <;> cases k <;> revert h <;> decide

theorem mem_onRight_of_rank
    {b k : Binding}
    (h : if b = dollar then k.level.rank ≤ b.level.rank
      else k.level.rank < b.level.rank) :
    k ∈ b.onRight := by
  cases b <;> cases k <;> revert h <;> decide

theorem level_ofOperator
    {l : Level} {op : String}
    (h : Level.ofOperator op.toList = some l) :
    (ofOperator op).level = l := by
  have hword : ∀ s : String, op.toList = s.toList → op = s :=
    fun _ h => String.toList_inj.1 h
  cases l with
  | atom =>
      exact absurd rfl (Level.ofOperator_ne_lower h).1
  | application =>
      exact absurd rfl (Level.ofOperator_ne_lower h).2
  | product =>
      rcases Level.ofOperator_eq_product_iff.1 h with h | h
      · rw [hword "*" h]
        rfl
      · rw [hword "/" h]
        rfl
  | sum =>
      rcases Level.ofOperator_eq_sum_iff.1 h with h | h
      · rw [hword "+" h]
        rfl
      · rw [hword "-" h]
        rfl
  | dollar =>
      rw [hword "$" (Level.ofOperator_eq_dollar_iff.1 h)]
      rfl
  | custom =>
      have hcustom := Level.ofOperator_eq_custom_iff.1 h
      unfold ofOperator
      split_ifs with htimes hplus hdollar
      · rcases htimes with rfl | rfl <;> cases hcustom
      · rcases hplus with rfl | rfl <;> cases hcustom
      · subst hdollar
        cases hcustom
      · rfl

end Binding

namespace Tree

/-- The sort of the operator of an infix node. -/
def binding? : Tree → Option Binding
  | ⟨"infix", _, [_, operator, _]⟩ => some (.ofOperator operator.text)
  | _ => none

/-- The tree is one of an atom. -/
def IsAtom (t : Tree) : Prop :=
  t.tag ∈ ["integer", "string", "variable", "parens"]

mutual

/-- The texts of the leaves, from left to right. -/
def leafTexts : Tree → List String
  | ⟨_, text, children⟩ =>
      if children.isEmpty then [text] else leafTextsAll children

/-- The texts of the leaves of a list of trees, from left to right. -/
def leafTextsAll : List Tree → List String
  | [] => []
  | t :: ts => leafTexts t ++ leafTextsAll ts

end

@[simp] theorem leafTexts_leaf
    (tag w : String) :
    (leaf tag w).leafTexts = [w] := by
  rfl

/-- The leaves of a node that has children are the leaves of the children. -/
@[simp] theorem leafTexts_cons
    (tag text : String) (t : Tree) (ts : List Tree) :
    leafTexts ⟨tag, text, t :: ts⟩ = t.leafTexts ++ leafTextsAll ts := by
  simp [leafTexts, leafTextsAll]

@[simp] theorem leafTextsAll_cons
    (t : Tree) (ts : List Tree) :
    leafTextsAll (t :: ts) = t.leafTexts ++ leafTextsAll ts := by
  rfl

@[simp] theorem leafTextsAll_nil : leafTextsAll [] = [] := rfl

theorem leafTextsAll_map_leaf
    (tag : String) (names : List String) :
    leafTextsAll (names.map (leaf tag)) = names := by
  induction names with
  | nil => rfl
  | cons x names ih => simp [ih]

end Tree

/-- Expressions that are put together as the precedences say. -/
inductive NormalForm : Tree → Prop
  | integer {w : String} :
      isInteger w.toList = true → NormalForm (.leaf "integer" w)
  | text {w : String} :
      isText w.toList = true → NormalForm (.leaf "string" w)
  | name {w : String} :
      isName w.toList = true → NormalForm (.leaf "variable" w)
  | parens {gap gap' : String} {e : Tree} :
      IsGap gap → NormalForm e → IsGap gap' →
      NormalForm ⟨"parens", "(" ++ gap ++ e.text ++ gap' ++ ")",
        [.leaf "(" "(", e, .leaf ")" ")"]⟩
  | apply {f a : Tree} {gap : String} :
      NormalForm f → IsGap gap → NormalForm a →
      f.IsAtom ∨ f.tag = "apply" → a.IsAtom →
      NormalForm ⟨"apply", f.text ++ gap ++ a.text, [f, a]⟩
  | operator {a b : Tree} {gap op gap' : String} :
      NormalForm a → IsGap gap → isOperatorToken op.toList = true → IsGap gap' →
      NormalForm b →
      (∀ k ∈ a.binding?, k ∈ (Binding.ofOperator op).onLeft) →
      (∀ k ∈ b.binding?, k ∈ (Binding.ofOperator op).onRight) →
      NormalForm ⟨"infix", a.text ++ gap ++ op ++ gap' ++ b.text,
        [a, .leaf "operator" op, b]⟩

/-- The outermost operator of an expression binds no looser than the level of
the expression. -/
theorem Grammar.Derives.rank_binding
    {l : Level} {t : Tree}
    (h : Derives l t) :
    ∀ k ∈ t.binding?, k.level.rank ≤ l.rank := by
  induction h with
  | integer | text | name | parens | apply =>
      rintro k ⟨⟩
  | single hl _ ih =>
      intro k hk
      have := Level.rank_lower_lt hl
      have := ih k hk
      omega
  | left _ _ _ hop | right _ _ hop =>
      rintro k ⟨⟩
      exact Nat.le_of_eq (congrArg Level.rank (Binding.level_ofOperator hop.2))

theorem Grammar.Derives.isAtom
    {t : Tree}
    (h : Derives .atom t) :
    t.IsAtom := by
  cases h with
  | integer | text | name | parens => simp [Tree.IsAtom, Tree.leaf, parensTree]
  | single hl => exact absurd rfl hl
  | left _ _ _ hop => exact absurd rfl (Level.ofOperator_ne_lower hop.2).1

theorem Grammar.Derives.isAtom_or_apply
    {t : Tree}
    (h : Derives .application t) :
    t.IsAtom ∨ t.tag = "apply" := by
  cases h with
  | single _ h => exact Or.inl h.isAtom
  | apply => exact Or.inr rfl
  | left _ _ _ hop => exact absurd rfl (Level.ofOperator_ne_lower hop.2).2

/-- The expressions of the grammar are in normal form. -/
theorem Grammar.Derives.normalForm
    {l : Level} {t : Tree}
    (h : Derives l t) :
    NormalForm t := by
  induction h with
  | integer hw => exact .integer hw
  | text hw => exact .text hw
  | name hw => exact .name hw
  | parens hgap _ hgap' ih => exact .parens hgap ih hgap'
  | single _ _ ih => exact ih
  | apply hf hgap ha _ ihf iha =>
      exact .apply ihf hgap iha hf.isAtom_or_apply ha.isAtom
  | @left l a b gap op gap' hl ha hgap hop hgap' hb iha ihb =>
      have hlevel := Binding.level_ofOperator hop.2
      have hlower := Level.rank_lower_lt (Level.ofOperator_ne_lower hop.2).1
      have hne : Binding.ofOperator op ≠ .dollar := by
        intro hdollar
        rw [hdollar] at hlevel
        exact hl hlevel.symm
      refine .operator iha hgap (isOperatorToken_iff.2 ⟨l, hop⟩) hgap' ihb ?_ ?_
      · intro k hk
        have := ha.rank_binding k hk
        refine Binding.mem_onLeft_of_rank ?_
        rw [if_neg hne, hlevel]
        exact this
      · intro k hk
        have := hb.rank_binding k hk
        refine Binding.mem_onRight_of_rank ?_
        rw [if_neg hne, hlevel]
        omega
  | @right a b gap op gap' ha hgap hop hgap' hb iha ihb =>
      have hdollar : Binding.ofOperator op = .dollar := by
        have hlevel := Binding.level_ofOperator hop.2
        cases h : Binding.ofOperator op with
        | dollar => rfl
        | times | plus | custom =>
            rw [h] at hlevel
            cases hlevel
      refine .operator iha hgap (isOperatorToken_iff.2 ⟨_, hop⟩) hgap' ihb ?_ ?_
      · intro k hk
        rw [hdollar]
        exact Binding.mem_onLeft_of_rank (Nat.lt_succ_of_le (ha.rank_binding k hk))
      · intro k hk
        rw [hdollar]
        exact Binding.mem_onRight_of_rank (hb.rank_binding k hk)

/-- An equals sign and an expression. -/
inductive IsMatch : Tree → Prop
  | intro {text : String} {e : Tree} :
      NormalForm e → IsMatch ⟨"match", text, [.leaf "=" "=", e]⟩

theorem IsMatch.kind_eq
    {t : Tree}
    (h : IsMatch t) :
    t.kind = .equation := by
  cases h
  rfl

/-- A function with its parameters, a bound name, or a bare expression. -/
inductive IsDeclaration : Tree → Prop
  | function {text text' name parameter : String} {others : List String}
      {m : Tree} :
      (∀ x ∈ name :: parameter :: others, isName x.toList = true) → IsMatch m →
      IsDeclaration ⟨"function", text,
        [.leaf "variable" name,
          ⟨"patterns", text', (parameter :: others).map (.leaf "variable")⟩, m]⟩
  | bind {text name : String} {m : Tree} :
      isName name.toList = true → IsMatch m →
      IsDeclaration ⟨"bind", text, [.leaf "variable" name, m]⟩
  | splice {text : String} {e : Tree} :
      NormalForm e → IsDeclaration ⟨"top_splice", text, [e]⟩

theorem Grammar.Equates.isMatch
    {input rest : List Char} {m : Tree}
    (h : Equates input m rest) :
    IsMatch m := by
  obtain ⟨-, hp⟩ := h
  exact .intro hp.derives.normalForm

theorem Grammar.Parameters.names
    {input after : List Char} {text : String} {names : List String}
    (h : Parameters input text names after) :
    names ≠ [] ∧ ∀ x ∈ names, isName x.toList = true := by
  induction h with
  | one hw => simp [hw]
  | more hw _ _ _ ih =>
      exact ⟨List.cons_ne_nil _ _, List.forall_mem_cons.2 ⟨hw, ih.2⟩⟩

theorem Grammar.Declares.isDeclaration
    {input rest : List Char} {t : Tree}
    (h : Declares input t rest) :
    IsDeclaration t := by
  cases h with
  | function h =>
      obtain ⟨hname, -, -, hparameters, -, hm⟩ := h
      rename_i names _ _ _
      cases names with
      | nil => exact absurd rfl hparameters.names.1
      | cons x names =>
          exact .function (List.forall_mem_cons.2 ⟨hname, hparameters.names.2⟩)
            hm.isMatch
  | bind h =>
      obtain ⟨hname, -, hm⟩ := h
      exact .bind hname hm.isMatch
  | splice h =>
      exact .splice h.derives.normalForm

theorem Grammar.Body.isDeclaration
    {input : List Char} {ts : List Tree}
    (h : Body input ts) :
    ∀ t ∈ ts, IsDeclaration t := by
  induction h with
  | last ht => simp [ht.isDeclaration]
  | more ht _ _ ih => exact List.forall_mem_cons.2 ⟨ht.isDeclaration, ih⟩

theorem Grammar.Program.isDeclaration
    {source : List Char} {ts : List Tree}
    (h : Program source ts) :
    ∀ t ∈ ts, IsDeclaration t := by
  cases h with
  | empty => simp
  | body _ hbody => exact hbody.isDeclaration

/-- The texts occur one after the other, with fillers between, before and behind
them. -/
inductive Woven : List Char → List String → Prop
  | nil {n : Nat} {input : List Char} :
      Fills n input [] → Woven input []
  | cons {n : Nat} {input rest : List Char} {x : String} {xs : List String} :
      Fills n input (x.toList ++ rest) → Woven rest xs → Woven input (x :: xs)

namespace Woven

variable {input rest : List Char} {xs : List String}

theorem fill
    {n : Nat}
    (h : Fills n input rest) (hrest : Woven rest xs) :
    Woven input xs := by
  cases hrest with
  | nil h' => exact .nil (h.trans h')
  | cons h' hxs => exact .cons (h.trans h') hxs

theorem gap
    {gap : String}
    (hgap : IsGap gap) (hrest : Woven rest xs) :
    Woven (gap.toList ++ rest) xs :=
  hrest.fill (.of_blank hgap rest)

theorem word
    (x : String) (hrest : Woven rest xs) :
    Woven (x.toList ++ rest) (x :: xs) :=
  .cons (.done _) hrest

theorem derives
    {l : Level} {t : Tree}
    (h : Derives l t) (hrest : Woven rest xs) :
    Woven (t.text.toList ++ rest) (t.leafTexts ++ xs) := by
  induction h generalizing rest xs with
  | integer | text | name =>
      exact hrest.word _
  | @parens gap gap' e hgap _ hgap' ih =>
      have hall := ((ih ((hrest.word ")").gap hgap')).gap hgap).word "("
      simpa [parensTree, List.append_assoc] using hall
  | single _ _ ih =>
      exact ih hrest
  | apply _ hgap _ _ ihf iha =>
      have hall := ihf ((iha hrest).gap hgap)
      simpa [applyTree, List.append_assoc] using hall
  | @left _ _ _ _ op _ _ _ hgap _ hgap' _ iha ihb =>
      have hall := iha ((((ihb hrest).gap hgap').word op).gap hgap)
      simpa [infixTree, List.append_assoc] using hall
  | @right _ _ _ op _ _ hgap _ hgap' _ iha ihb =>
      have hall := iha ((((ihb hrest).gap hgap').word op).gap hgap)
      simpa [infixTree, List.append_assoc] using hall

theorem reading
    {p : Phrase}
    (h : Reading .dollar (BareAt .dollar) input p rest) (hrest : Woven rest xs) :
    Woven input (p.tree.leafTexts ++ xs) := by
  rw [h.input_eq]
  exact derives h.derives (hrest.fill (.of_trail h.trail))

theorem equates
    {m : Tree}
    (h : Equates input m rest) (hrest : Woven rest xs) :
    Woven input (m.leafTexts ++ xs) := by
  obtain ⟨hgap, hp⟩ := h
  have hall := ((hrest.reading hp).gap hgap).word "="
  simpa [matchTree] using hall

theorem parameters
    {text : String} {names : List String}
    (h : Parameters input text names rest) (hrest : Woven rest xs) :
    Woven input (names ++ xs) := by
  induction h with
  | one => exact hrest.word _
  | more _ hgap _ _ ih => exact ((ih hrest).gap hgap).word _

theorem declares
    {t : Tree}
    (h : Declares input t rest) (hrest : Woven rest xs) :
    Woven input (t.leafTexts ++ xs) := by
  cases h with
  | function h =>
      obtain ⟨-, hgap, -, hparameters, hgap', hm⟩ := h
      rename_i name _ _ _ names _ _ _
      have hall :=
        ((((hrest.equates hm).gap hgap').parameters hparameters).gap hgap).word
          name
      cases names with
      | nil => exact absurd rfl hparameters.names.1
      | cons x names =>
          simpa [functionTree, patternsTree, Tree.leafTextsAll_map_leaf]
            using hall
  | bind h =>
      obtain ⟨-, hgap, hm⟩ := h
      rename_i name _ _ _
      have hall := ((hrest.equates hm).gap hgap).word name
      simpa [bindTree] using hall
  | splice h =>
      have hall := hrest.reading h
      simpa [spliceTree] using hall

theorem body
    {ts : List Tree}
    (h : Body input ts) :
    Woven input (Tree.leafTextsAll ts) := by
  induction h with
  | last ht hfills => exact (Woven.nil hfills).declares ht
  | more ht hfills _ ih => exact (ih.fill hfills).declares ht

end Woven

/-- The tree of an accepted source has the source as its text and declarations
as its children, its expressions are in normal form, and its leaves are all
there is in the source besides blanks, separators and comments. -/
theorem parse_shape_and_leaves
    {source : String} {t : Tree}
    (h : parse source = .ok t) :
    t.tag = "declarations" ∧
    t.text = source ∧
    (∀ d ∈ t.children, IsDeclaration d) ∧
    Woven source.toList (Tree.leafTextsAll t.children) := by
  obtain ⟨ts, rfl, hprogram⟩ := parse_eq_ok_iff.1 h
  refine ⟨rfl, rfl, hprogram.isDeclaration, ?_⟩
  cases hprogram with
  | empty hfills => exact .nil hfills
  | body hfills hbody => exact (Woven.body hbody).fill hfills

/-- A function with a comment behind it, two separators, and a bare
expression. -/
theorem parse_twice_shape_and_leaves :
    ∃ t, parse "twice x = x * (a + 2) -- not more\n; twice\t3 " = .ok t ∧
      (∀ d ∈ t.children, IsDeclaration d) ∧
      Woven "twice x = x * (a + 2) -- not more\n; twice\t3 ".toList
        ["twice", "x", "=", "x", "*", "(", "a", "+", "2", ")", "twice", "3"] := by
  have hleaves :
      ((parse "twice x = x * (a + 2) -- not more\n; twice\t3 ").toOption.map
        fun t => Tree.leafTextsAll t.children) =
      some ["twice", "x", "=", "x", "*", "(", "a", "+", "2", ")", "twice", "3"] := by
    decide +kernel
  cases h : parse "twice x = x * (a + 2) -- not more\n; twice\t3 " with
  | error e =>
      rw [h] at hleaves
      cases hleaves
  | ok t =>
      rw [h] at hleaves
      obtain ⟨-, -, hchildren, hwoven⟩ := parse_shape_and_leaves h
      refine ⟨t, rfl, hchildren, ?_⟩
      exact Option.some.inj hleaves ▸ hwoven

end Curried
