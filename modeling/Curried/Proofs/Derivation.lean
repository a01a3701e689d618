import Curried.Proofs.Repetition

/-!
# The grammar of expressions

Which trees are expressions, said without the parser.

**Levels.**  From tightest to loosest: atoms, applications, products, sums,
custom operators, `$`.  `Derives l t` says that `t` is the tree of an expression
of level `l`; its text is the text of the expression.  The two sides of an
operator are of the levels that its precedence and its direction ask for.

**Gaps.**  Between two lexemes there may be blanks.  They may be missing unless
the second lexeme would then go on with the first one: `goesOn t` tells which
characters go on with the last lexeme of `t`.

**Layout behind.**  A chain takes the layout behind its first operand.  So the
layout behind an expression is taken with it unless every chain around its end
has several members; `bareAt` gives the level at which a reader stops right
behind the expression.
-/

namespace Curried

namespace Grammar

open Lexeme

/-- How tightly an expression holds together. -/
inductive Level where
  | atom
  | application
  | product
  | sum
  | custom
  | dollar
deriving DecidableEq

namespace Level

/-- The next tighter level. -/
def lower : Level → Level
  | atom => atom
  | application => atom
  | product => application
  | sum => product
  | custom => sum
  | dollar => custom

/-- The place of a level, from tightest to loosest. -/
def rank : Level → Nat
  | atom => 0
  | application => 1
  | product => 2
  | sum => 3
  | custom => 4
  | dollar => 5

/-- The level of the chains that an operator makes. -/
def ofOperator (w : List Char) : Option Level :=
  if w == ['*'] || w == ['/'] then
    some product
  else if w == ['+'] || w == ['-'] then
    some sum
  else if w == ['$'] then
    some dollar
  else if isCustom w then
    some custom
  else
    none

theorem rank_lower_lt
    {l : Level}
    (h : l ≠ atom) :
    l.lower.rank < l.rank := by
  cases l <;> simp_all [lower, rank]

theorem ofOperator_eq_product_iff
    {w : List Char} :
    ofOperator w = some product ↔ w = ['*'] ∨ w = ['/'] := by
  unfold ofOperator
  split_ifs <;> simp_all

theorem ofOperator_eq_sum_iff
    {w : List Char} :
    ofOperator w = some sum ↔ w = ['+'] ∨ w = ['-'] := by
  unfold ofOperator
  split_ifs with hproduct
  · simp only [Bool.or_eq_true, beq_iff_eq] at hproduct
    rcases hproduct with rfl | rfl <;> simp
  all_goals simp_all

theorem ofOperator_eq_dollar_iff
    {w : List Char} :
    ofOperator w = some dollar ↔ w = ['$'] := by
  unfold ofOperator
  split_ifs with hproduct hsum
  · simp only [Bool.or_eq_true, beq_iff_eq] at hproduct
    rcases hproduct with rfl | rfl <;> simp
  · simp only [Bool.or_eq_true, beq_iff_eq] at hsum
    rcases hsum with rfl | rfl <;> simp
  all_goals simp_all

theorem ofOperator_eq_custom_iff
    {w : List Char} :
    ofOperator w = some custom ↔ isCustom w = true := by
  unfold ofOperator
  split_ifs with hproduct hsum hdollar
  · simp only [Bool.or_eq_true, beq_iff_eq] at hproduct
    rcases hproduct with rfl | rfl <;> decide
  · simp only [Bool.or_eq_true, beq_iff_eq] at hsum
    rcases hsum with rfl | rfl <;> decide
  · rw [beq_iff_eq] at hdollar
    subst hdollar
    decide
  all_goals simp_all

/-- Operators make chains, never applications or atoms. -/
theorem ofOperator_ne_lower
    {w : List Char} {l : Level}
    (h : ofOperator w = some l) :
    l ≠ atom ∧ l ≠ application := by
  unfold ofOperator at h
  split_ifs at h <;> cases h <;> simp

end Level

/-- An operator of the given level. -/
def IsOperator (l : Level) (w : List Char) : Prop :=
  w.all isOperatorChar = true ∧ Level.ofOperator w = some l

/-- A word of operator characters that is not empty, not the equals sign, and
does not open a comment. -/
def isOperatorToken : List Char → Bool
  | [] => false
  | ['='] => false
  | '-' :: '-' :: _ => false
  | w => w.all isOperatorChar

theorem isOperatorToken_of_isCustom
    {w : List Char}
    (h : isCustom w = true) :
    isOperatorToken w = w.all isOperatorChar := by
  fun_cases isOperatorToken w with
  | case1 => cases h
  | case2 => cases h
  | case3 => cases h
  | case4 => rfl

/-- The words of operator characters that make no level are those that are no
operators. -/
theorem ofOperator_isSome_of_isOperatorToken
    {w : List Char}
    (h : isOperatorToken w = true) :
    (Level.ofOperator w).isSome = true := by
  fun_cases isCustom w with
  | case1 =>
      cases h
  | case2 c =>
      cases hc : isReserved c with
      | false =>
          have hcustom : isCustom [c] = true := by simp [isCustom, hc]
          rw [Level.ofOperator_eq_custom_iff.2 hcustom]
          rfl
      | true =>
          simp only [isReserved, List.contains_eq_mem, List.mem_cons,
            List.not_mem_nil, or_false, decide_eq_true_eq] at hc
          rcases hc with rfl | rfl | rfl | rfl | rfl | rfl
          · rfl
          · rfl
          · rfl
          · rfl
          · rfl
          · cases h
  | case3 =>
      cases h
  | case4 w hnil hone hminus =>
      have hcustom : isCustom w = true := by
        unfold isCustom
        split <;> simp_all
      rw [Level.ofOperator_eq_custom_iff.2 hcustom]
      rfl

/-- The operators of all levels together. -/
theorem isOperatorToken_iff
    {w : List Char} :
    isOperatorToken w = true ↔ ∃ l, IsOperator l w := by
  constructor
  · intro h
    obtain ⟨l, hl⟩ :=
      Option.isSome_iff_exists.1 (ofOperator_isSome_of_isOperatorToken h)
    refine ⟨l, ?_, hl⟩
    unfold isOperatorToken at h
    split at h
    · cases h
    · cases h
    · cases h
    · exact h
  · rintro ⟨l, hchars, hl⟩
    cases l with
    | atom =>
        exact absurd rfl (Level.ofOperator_ne_lower hl).1
    | application =>
        exact absurd rfl (Level.ofOperator_ne_lower hl).2
    | product =>
        rcases Level.ofOperator_eq_product_iff.1 hl with rfl | rfl <;> rfl
    | sum =>
        rcases Level.ofOperator_eq_sum_iff.1 hl with rfl | rfl <;> rfl
    | custom =>
        rw [isOperatorToken_of_isCustom (Level.ofOperator_eq_custom_iff.1 hl)]
        exact hchars
    | dollar =>
        rw [Level.ofOperator_eq_dollar_iff.1 hl]
        rfl

/-- A run of blanks. -/
def IsGap (g : String) : Prop :=
  g.toList.all isBlank = true

/-- Whether a character, put right behind an expression, goes on with its last
lexeme. -/
def goesOn : Tree → Char → Bool
  | ⟨"variable", _, _⟩, c => isNamePart c
  | ⟨"integer", _, _⟩, c => c.isDigit
  | ⟨"apply", _, [_, argument]⟩, c => goesOn argument c
  | ⟨"infix", _, [_, _, right]⟩, c => goesOn right c
  | _, _ => false

/-- The level of a chain with an operator of level `l` in front of an operand at
which a reader stops bare. -/
def climb : Option Level → Option Level → Option Level
  | some l, some r =>
      if r = l.lower ∨ (l = .dollar ∧ r = .dollar) then some l else none
  | _, _ => none

/-- The level, if there is one, at which a reader stops right behind an
expression and leaves the layout there. -/
def bareAt : Tree → Option Level
  | ⟨"infix", _, [_, operator, right]⟩ =>
      climb (Level.ofOperator operator.text.toList) (bareAt right)
  | ⟨"apply", _, _⟩ => some .application
  | _ => some .atom

/-- The tree of an operator between two expressions. -/
def infixTree (left : Tree) (gap operator gap' : String) (right : Tree) : Tree :=
  ⟨"infix", left.text ++ gap ++ operator ++ gap' ++ right.text,
    [left, .leaf "operator" operator, right]⟩

/-- The tree of a function applied to an argument. -/
def applyTree (function : Tree) (gap : String) (argument : Tree) : Tree :=
  ⟨"apply", function.text ++ gap ++ argument.text, [function, argument]⟩

/-- The tree of an expression in parentheses. -/
def parensTree (gap : String) (inner : Tree) (gap' : String) : Tree :=
  ⟨"parens", "(" ++ gap ++ inner.text ++ gap' ++ ")",
    [.leaf "(" "(", inner, .leaf ")" ")"]⟩

/-- The trees of the expressions of each level. -/
inductive Derives : Level → Tree → Prop
  | integer {w : String} :
      isInteger w.toList = true →
      Derives .atom (.leaf "integer" w)
  | text {w : String} :
      isText w.toList = true →
      Derives .atom (.leaf "string" w)
  | name {w : String} :
      isName w.toList = true →
      Derives .atom (.leaf "variable" w)
  | parens {gap gap' : String} {e : Tree} :
      IsGap gap → Derives .dollar e → IsGap gap' →
      Derives .atom (parensTree gap e gap')
  | single {l : Level} {t : Tree} :
      l ≠ .atom → Derives l.lower t →
      Derives l t
  | apply {f a : Tree} {gap : String} :
      Derives .application f → IsGap gap → Derives .atom a →
      starts (goesOn f) (gap.toList ++ a.text.toList) = false →
      Derives .application (applyTree f gap a)
  | left {l : Level} {a b : Tree} {gap op gap' : String} :
      l ≠ .dollar → Derives l a → IsGap gap → IsOperator l op.toList →
      IsGap gap' → Derives l.lower b →
      Derives l (infixTree a gap op gap' b)
  | right {a b : Tree} {gap op gap' : String} :
      Derives .custom a → IsGap gap → IsOperator .dollar op.toList →
      IsGap gap' → Derives .dollar b →
      Derives .dollar (infixTree a gap op gap' b)

@[simp] theorem goesOn_infixTree
    (a b : Tree) (gap op gap' : String) :
    goesOn (infixTree a gap op gap' b) = goesOn b := by
  rfl

@[simp] theorem goesOn_applyTree
    (f a : Tree) (gap : String) :
    goesOn (applyTree f gap a) = goesOn a := by
  rfl

@[simp] theorem goesOn_parensTree
    (gap gap' : String) (e : Tree) (c : Char) :
    goesOn (parensTree gap e gap') c = false := by
  rfl

@[simp] theorem bareAt_infixTree
    (a b : Tree) (gap op gap' : String) :
    bareAt (infixTree a gap op gap' b) =
      climb (Level.ofOperator op.toList) (bareAt b) := by
  rfl

@[simp] theorem bareAt_applyTree
    (f a : Tree) (gap : String) :
    bareAt (applyTree f gap a) = some .application := by
  rfl

theorem climb_eq_some
    {l k : Level} {r : Option Level}
    (h : climb (some l) r = some k) :
    k = l := by
  cases r with
  | none => cases h
  | some r =>
      simp only [climb] at h
      split at h
      · cases h
        rfl
      · cases h

theorem climb_eq_some_iff
    {l : Level} {r : Option Level}
    (hl : l ≠ .dollar) :
    climb (some l) r = some l ↔ r = some l.lower := by
  cases r <;> simp [climb, hl]

theorem climb_dollar_eq_some_iff
    {r : Option Level} :
    climb (some .dollar) r = some .dollar ↔ r = some .dollar ∨
    r = some .custom := by
  cases r with
  | none => simp [climb]
  | some r => cases r <;> simp [climb, Level.lower]

namespace Derives

/-- A reader stops bare behind an expression at most at the levels of the
expression. -/
theorem rank_bareAt
    {l k : Level} {t : Tree}
    (h : Derives l t) (hk : bareAt t = some k) :
    k.rank ≤ l.rank := by
  induction h with
  | integer | text | name | parens =>
      cases hk
      exact Nat.le_refl _
  | single hl _ ih =>
      have := Level.rank_lower_lt hl
      have := ih hk
      omega
  | apply =>
      cases hk
      exact Nat.le_refl _
  | left _ _ _ hop _ _ =>
      rw [bareAt_infixTree, hop.2] at hk
      rw [climb_eq_some hk]
  | right _ _ hop _ _ =>
      rw [bareAt_infixTree, hop.2] at hk
      rw [climb_eq_some hk]

theorem bareAt_ne_of_lower
    {l : Level} {t : Tree}
    (hl : l ≠ .atom) (h : Derives l.lower t) :
    bareAt t ≠ some l := by
  intro hk
  have := Level.rank_lower_lt hl
  have := h.rank_bareAt hk
  omega

theorem bareAt_atom
    {t : Tree}
    (h : Derives .atom t) :
    bareAt t = some .atom := by
  cases h with
  | integer | text | name | parens => rfl
  | single hl => exact absurd rfl hl
  | left _ _ _ hop => exact absurd rfl (Level.ofOperator_ne_lower hop.2).1

/-- An application is an expression of every looser level. -/
theorem loosen
    {t : Tree}
    (h : Derives .application t) :
    Derives .dollar t := by
  have hproduct : Derives .product t := .single (by decide) h
  have hsum : Derives .sum t := .single (by decide) hproduct
  have hcustom : Derives .custom t := .single (by decide) hsum
  exact .single (by decide) hcustom

end Derives

/-- The characters with which an expression can start. -/
def isAtomStart (c : Char) : Bool :=
  c.isDigit || c == '"' || isNameStart c || c == '('

theorem apart_isBlank_isAtomStart : Apart isBlank isAtomStart :=
  .isBlank (by decide)

theorem apart_isLineEnd_isAtomStart : Apart isLineEnd isAtomStart :=
  .isLineEnd (by decide)

theorem apart_isOperatorChar_isAtomStart : Apart isOperatorChar isAtomStart :=
  .isOperatorChar (by decide)

theorem Derives.starts_text
    {l : Level} {t : Tree}
    (h : Derives l t) :
    starts isAtomStart t.text.toList = true := by
  have hword : ∀ {p : Char → Bool} {w : List Char},
      (∀ c, p c = true → isAtomStart c = true) → starts p w = true →
        starts isAtomStart w = true := by
    intro p w hp hw
    obtain ⟨c, rest, rfl, hc⟩ := exists_cons_of_starts hw
    exact hp c hc
  induction h with
  | integer hw =>
      exact hword (fun c hc => by simp [isAtomStart, hc]) (starts_of_isInteger _ hw)
  | text hw =>
      exact hword (fun c hc => by simp_all [isAtomStart]) (starts_of_isText _ hw)
  | name hw =>
      exact hword (fun c hc => by simp [isAtomStart, hc]) (starts_of_isName _ hw)
  | parens =>
      simp [parensTree, isAtomStart]
  | single _ _ ih =>
      exact ih
  | @apply f a gap _ _ _ _ ih _ =>
      obtain ⟨c, rest, hrest, hc⟩ := exists_cons_of_starts ih
      simp [applyTree, hrest, hc]
  | left _ _ _ _ _ _ ih _ | right _ _ _ _ _ ih _ =>
      obtain ⟨c, rest, hrest, hc⟩ := exists_cons_of_starts ih
      simp [infixTree, hrest, hc]

theorem Derives.starts_text_append
    {l : Level} {t : Tree}
    (h : Derives l t) (rest : List Char) :
    starts isAtomStart (t.text.toList ++ rest) = true :=
  starts_append_of_starts h.starts_text rest

theorem Derives.text_ne_nil
    {l : Level} {t : Tree}
    (h : Derives l t) :
    t.text.toList ≠ [] := by
  intro hnil
  have := h.starts_text
  rw [hnil] at this
  cases this

end Grammar

end Curried
