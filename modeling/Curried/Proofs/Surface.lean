import Curried.Proofs.NormalForm

/-!
# Programs and the ways to write them

**Surface syntax.**  `Expression l` is the type of expressions of level `l`,
with words in place of texts; a program is a list of declarations.  What is no
program cannot be built.

**Layout.**  `Spaced tokens w` says that `w` is the tokens in order with blanks
between them, and that two tokens do not stand side by side where they would be
read as one.  `Written declarations source` says the same of a whole program,
with fillers around and between the declarations.

**Result.**  `parse_written`: every way to write a program is accepted, and
gives the tree of the program.
-/

namespace Curried

open Grammar Lexeme

/-- A word of a program. -/
inductive Token where
  | integer (w : String) (h : isInteger w.toList = true)
  | text (w : String) (h : isText w.toList = true)
  | name (w : String) (h : isName w.toList = true)
  | operator (w : String) (h : isOperatorToken w.toList = true)
  | opening
  | closing
  | equals

namespace Token

/-- The word itself. -/
def word : Token → String
  | integer w _ => w
  | text w _ => w
  | name w _ => w
  | operator w _ => w
  | opening => "("
  | closing => ")"
  | equals => "="

/-- Whether the second token needs a blank before it: a name or an integer
behind a name, an integer behind an integer. -/
def clings : Token → Token → Bool
  | name _ _, name _ _ => true
  | name _ _, integer _ _ => true
  | integer _ _, integer _ _ => true
  | _, _ => false

/-- Whether a character, put right behind the token, goes on with it. -/
def goesOn : Token → Char → Bool
  | integer _ _, c => c.isDigit
  | name _ _, c => isNamePart c
  | _, _ => false

end Token

/-- Expressions, by how tightly they hold together. -/
inductive Expression : Level → Type
  | integer (w : String) (h : isInteger w.toList = true) :
      Expression .atom
  | text (w : String) (h : isText w.toList = true) :
      Expression .atom
  | name (w : String) (h : isName w.toList = true) :
      Expression .atom
  | parens (e : Expression .dollar) :
      Expression .atom
  | single {l : Level} (hl : l ≠ .atom) (e : Expression l.lower) :
      Expression l
  | apply (f : Expression .application) (a : Expression .atom) :
      Expression .application
  | left {l : Level} (hl : l ≠ .dollar) (a : Expression l)
      (op : String) (hop : isOperatorToken op.toList = true)
      (hlevel : (Binding.ofOperator op).level = l)
      (b : Expression l.lower) :
      Expression l
  | right (a : Expression .custom)
      (op : String) (hop : isOperatorToken op.toList = true)
      (hlevel : (Binding.ofOperator op).level = .dollar)
      (b : Expression .dollar) :
      Expression .dollar

namespace Expression

/-- The tokens of an expression, in order. -/
def tokens : {l : Level} → Expression l → List Token
  | _, integer w h => [.integer w h]
  | _, text w h => [.text w h]
  | _, name w h => [.name w h]
  | _, parens e => .opening :: (tokens e ++ [.closing])
  | _, single _ e => tokens e
  | _, apply f a => tokens f ++ tokens a
  | _, left _ a op hop _ b => tokens a ++ .operator op hop :: tokens b
  | _, right a op hop _ b => tokens a ++ .operator op hop :: tokens b

/-- The tree of an expression, without the texts of its inner nodes. -/
def outline : {l : Level} → Expression l → Tree
  | _, integer w _ => .leaf "integer" w
  | _, text w _ => .leaf "string" w
  | _, name w _ => .leaf "variable" w
  | _, parens e => ⟨"parens", "", [.leaf "(" "(", outline e, .leaf ")" ")"]⟩
  | _, single _ e => outline e
  | _, apply f a => ⟨"apply", "", [outline f, outline a]⟩
  | _, left _ a op _ _ b =>
      ⟨"infix", "", [outline a, .leaf "operator" op, outline b]⟩
  | _, right a op _ _ b =>
      ⟨"infix", "", [outline a, .leaf "operator" op, outline b]⟩

end Expression

namespace Tree

mutual

/-- The tree without the texts of its inner nodes. -/
def outline : Tree → Tree
  | ⟨tag, text, children⟩ =>
      ⟨tag, if children.isEmpty then text else "", outlineAll children⟩

/-- The trees without the texts of their inner nodes. -/
def outlineAll : List Tree → List Tree
  | [] => []
  | t :: ts => outline t :: outlineAll ts

end

theorem outline_parensTree
    (gap gap' : String) (e : Tree) :
    (parensTree gap e gap').outline =
      ⟨"parens", "", [.leaf "(" "(", e.outline, .leaf ")" ")"]⟩ := by
  rfl

theorem outline_applyTree
    (f a : Tree) (gap : String) :
    (applyTree f gap a).outline = ⟨"apply", "", [f.outline, a.outline]⟩ := by
  rfl

theorem outline_infixTree
    (a b : Tree) (gap op gap' : String) :
    (infixTree a gap op gap' b).outline =
      ⟨"infix", "", [a.outline, .leaf "operator" op, b.outline]⟩ := by
  rfl

theorem outlineAll_map_leaf
    (tag : String) (names : List String) :
    outlineAll (names.map (leaf tag)) = names.map (leaf tag) := by
  induction names with
  | nil => rfl
  | cons x names ih => rw [List.map_cons, outlineAll, ih]; rfl

theorem outline_functionTree
    (name gap text gap' x : String) (names : List String) (m : Tree) :
    (functionTree name gap text (x :: names) gap' m).outline =
      ⟨"function", "",
        [.leaf "variable" name,
          ⟨"patterns", "", (x :: names).map (.leaf "variable")⟩,
          m.outline]⟩ := by
  have hpatterns : (patternsTree text (x :: names) gap').outline =
      ⟨"patterns", "", (x :: names).map (.leaf "variable")⟩ := by
    rw [patternsTree, outline, outlineAll_map_leaf]
    rfl
  rw [← hpatterns]
  rfl

end Tree

/-- A name of the language. -/
abbrev Name := { w : String // isName w.toList = true }

/-- Declarations: a function with its parameters, a bound name, or a bare
expression. -/
inductive Declaration where
  | function (name parameter : Name) (others : List Name) (e : Expression .dollar)
  | bind (name : Name) (e : Expression .dollar)
  | splice (e : Expression .dollar)

namespace Declaration

/-- The tokens of a declaration, in order. -/
def tokens : Declaration → List Token
  | function name parameter others e =>
      (name :: parameter :: others).map (fun x => Token.name x.1 x.2) ++
        .equals :: e.tokens
  | bind name e => .name name.1 name.2 :: .equals :: e.tokens
  | splice e => e.tokens

/-- The tree of a declaration, without the texts of its inner nodes. -/
def outline : Declaration → Tree
  | function name parameter others e =>
      ⟨"function", "", [.leaf "variable" name.1,
        ⟨"patterns", "", (parameter :: others).map fun x => .leaf "variable" x.1⟩,
        ⟨"match", "", [.leaf "=" "=", e.outline]⟩]⟩
  | bind name e =>
      ⟨"bind", "", [.leaf "variable" name.1,
        ⟨"match", "", [.leaf "=" "=", e.outline]⟩]⟩
  | splice e => ⟨"top_splice", "", [e.outline]⟩

end Declaration

/-- The tokens in order with gaps between them, where a gap that keeps two
tokens apart is not empty. -/
inductive Spaced : List Token → List Char → Prop
  | one (x : Token) :
      Spaced [x] x.word.toList
  | cons {x y : Token} {ys : List Token} {g : String} {w : List Char} :
      IsGap g → (x.clings y = true → g ≠ "") → Spaced (y :: ys) w →
      Spaced (x :: y :: ys) (x.word.toList ++ (g.toList ++ w))

/-- The declarations with separators between them, up to the end of the
input. -/
inductive Laid : List Declaration → List Char → Prop
  | last {n : Nat} {d : Declaration} {w rest : List Char} :
      Spaced d.tokens w → Fills n rest [] →
      Laid [d] (w ++ rest)
  | more {n : Nat} {d : Declaration} {ds : List Declaration}
      {w rest next : List Char} :
      Spaced d.tokens w → Fills (n + 1) rest next → Laid ds next →
      Laid (d :: ds) (w ++ rest)

/-- A way to write a program: fillers before, between and behind the
declarations, with a separator between every two. -/
inductive Written : List Declaration → List Char → Prop
  | empty {n : Nat} {source : List Char} :
      Fills n source [] → Written [] source
  | body {n : Nat} {ds : List Declaration} {source next : List Char} :
      Fills n source next → Laid ds next → Written ds source

theorem isOperator_of_level
    {l : Level} {op : String}
    (hop : isOperatorToken op.toList = true)
    (hlevel : (Binding.ofOperator op).level = l) :
    IsOperator l op.toList := by
  obtain ⟨k, hk⟩ := isOperatorToken_iff.1 hop
  rwa [← hlevel, Binding.level_ofOperator hk.2]

namespace Token

theorem word_ne_nil
    (x : Token) :
    x.word.toList ≠ [] := by
  intro hnil
  cases x with
  | integer w h | text w h | name w h | operator w h =>
      change w.toList = [] at hnil
      rw [hnil] at h
      cases h
  | opening | closing | equals => cases hnil

theorem isNamePart_of_goesOn
    {x : Token} {c : Char}
    (h : x.goesOn c = true) :
    isNamePart c = true := by
  cases x with
  | integer =>
      have hdigit : c.isDigit = true := h
      simp [isNamePart, Char.isAlphanum, hdigit]
  | name => exact h
  | text | operator | opening | closing | equals => cases h

/-- Where a token needs no blank before it, its first character does not go on
with the token in front. -/
theorem starts_goesOn
    {x y : Token}
    (h : x.clings y = false) :
    starts x.goesOn y.word.toList = false := by
  have hoperator : ∀ {w : String}, isOperatorToken w.toList = true →
      starts isOperatorChar w.toList = true := by
    intro w hw
    obtain ⟨l, hl⟩ := isOperatorToken_iff.1 hw
    have := hl.starts_append []
    rwa [List.append_nil] at this
  cases x with
  | integer =>
      change starts Char.isDigit _ = false
      cases y with
      | integer => cases h
      | name w hw =>
          exact Apart.isNameStart_isDigit.starts_eq_false
            (starts_of_isName _ hw)
      | text w hw =>
          exact Apart.starts_eq_false (.single (by decide))
            (starts_of_isText _ hw)
      | operator w hw =>
          exact Apart.starts_eq_false (.isOperatorChar (by decide))
            (hoperator hw)
      | opening | closing | equals => rfl
  | name =>
      change starts isNamePart _ = false
      cases y with
      | integer | name => cases h
      | text w hw =>
          exact Apart.starts_eq_false (.single (by decide))
            (starts_of_isText _ hw)
      | operator w hw =>
          exact Apart.starts_eq_false (.isOperatorChar (by decide))
            (hoperator hw)
      | opening | closing | equals => rfl
  | text | operator | opening | closing | equals =>
      cases y.word.toList <;> rfl

end Token

namespace Spaced

/-- The word starts with the first token. -/
theorem exists_head
    {xs : List Token} {w : List Char}
    (h : Spaced xs w) :
    ∃ x ys v, xs = x :: ys ∧ w = x.word.toList ++ v := by
  cases h with
  | one x => exact ⟨x, [], [], rfl, (List.append_nil _).symm⟩
  | cons => exact ⟨_, _, _, rfl, rfl⟩

/-- Two runs of tokens are written one after the other with a gap between
them. -/
theorem split
    {xs ys : List Token} {w : List Char}
    (h : Spaced (xs ++ ys) w) (hxs : xs ≠ []) (hys : ys ≠ []) :
    ∃ u gap v,
      Spaced xs u ∧ IsGap gap ∧ Spaced ys v ∧ w = u ++ (gap.toList ++ v) ∧
      ∀ x ∈ xs.getLast?, ∀ y ∈ ys.head?, x.clings y = true → gap ≠ "" := by
  induction xs generalizing w with
  | nil =>
      exact absurd rfl hxs
  | cons x xs ih =>
      cases xs with
      | nil =>
          cases ys with
          | nil =>
              exact absurd rfl hys
          | cons y ys =>
              cases h with
              | cons hgap hclings h =>
                  refine ⟨_, _, _, .one x, hgap, h, rfl, ?_⟩
                  rintro _ ⟨⟩ _ ⟨⟩
                  exact hclings
      | cons x' xs =>
          cases h with
          | cons hgap hclings h =>
              obtain ⟨u, gap, v, hu, hgap', hv, rfl, hlast⟩ :=
                ih h (List.cons_ne_nil _ _)
              refine ⟨_, gap, v, .cons hgap hclings hu, hgap', hv, ?_, ?_⟩
              · simp [List.append_assoc]
              · rw [List.getLast?_cons_cons]
                exact hlast

theorem uncons
    {x : Token} {ys : List Token} {w : List Char}
    (h : Spaced (x :: ys) w) (hys : ys ≠ []) :
    ∃ gap v, IsGap gap ∧ Spaced ys v ∧ w = x.word.toList ++ (gap.toList ++ v) := by
  cases h with
  | one => exact absurd rfl hys
  | cons hgap _ h => exact ⟨_, _, hgap, h, rfl⟩

end Spaced

/-- What goes on with the last token of a run. -/
def lastGoesOn (xs : List Token) (c : Char) : Bool :=
  xs.getLast?.any (·.goesOn c)

theorem starts_gap_of_ne
    {gap : String} {q : Char → Bool}
    (hgap : IsGap gap) (hne : gap ≠ "") (hq : Apart isBlank q) (v : List Char) :
    starts q (gap.toList ++ v) = false := by
  obtain ⟨c, g, hg⟩ :=
    List.exists_cons_of_ne_nil fun hnil =>
      hne (String.toList_inj.1 (hnil.trans rfl))
  rw [IsGap, hg, List.all_cons, Bool.and_eq_true] at hgap
  rw [hg]
  exact hq c hgap.1

/-- Two runs of tokens with a gap between them do not run into each other. -/
theorem starts_lastGoesOn
    {xs ys : List Token} {gap : String} {v : List Char}
    (hgap : IsGap gap) (hv : Spaced ys v)
    (hclings : ∀ x ∈ xs.getLast?, ∀ y ∈ ys.head?, x.clings y = true → gap ≠ "") :
    starts (lastGoesOn xs) (gap.toList ++ v) = false := by
  cases hlast : xs.getLast? with
  | none =>
      have hno : lastGoesOn xs = fun _ => false := by
        funext c
        simp [lastGoesOn, hlast]
      rw [hno]
      cases gap.toList ++ v <;> rfl
  | some x =>
      have hx : lastGoesOn xs = x.goesOn := by
        funext c
        simp [lastGoesOn, hlast]
      rw [hx]
      obtain ⟨y, ys, v, rfl, rfl⟩ := hv.exists_head
      by_cases hempty : gap = ""
      · have hno : x.clings y = false := by
          cases h : x.clings y with
          | false => rfl
          | true => exact absurd hempty (hclings x hlast y rfl h)
        rw [hempty]
        exact (starts_append y.word_ne_nil v).trans (Token.starts_goesOn hno)
      · refine starts_gap_of_ne hgap hempty (fun c hc => ?_) _
        cases h : x.goesOn c with
        | false => rfl
        | true => rw [← Token.isNamePart_of_goesOn h, Apart.isBlank_isNamePart c hc]

theorem lastGoesOn_append
    (xs : List Token) {ys : List Token}
    (hys : ys ≠ []) :
    lastGoesOn (xs ++ ys) = lastGoesOn ys := by
  funext c
  rw [lastGoesOn, lastGoesOn, List.getLast?_append,
    List.getLast?_eq_some_getLast hys]
  rfl

theorem lastGoesOn_cons
    (x : Token) {ys : List Token}
    (hys : ys ≠ []) :
    lastGoesOn (x :: ys) = lastGoesOn ys :=
  lastGoesOn_append [x] hys

namespace Expression

theorem tokens_ne_nil
    {l : Level} (e : Expression l) :
    e.tokens ≠ [] := by
  induction e with
  | integer | text | name | parens => exact List.cons_ne_nil _ _
  | single _ _ ih => exact ih
  | apply _ _ ihf _ => simp [tokens, ihf]
  | left _ _ _ _ _ _ iha _ => simp [tokens]
  | right _ _ _ _ _ iha _ => simp [tokens]

/-- The tree of an expression that is written as `w`. -/
structure Depicts {l : Level} (e : Expression l) (w : List Char) (t : Tree) :
    Prop where
  derives : Derives l t
  text_eq : t.text.toList = w
  outline_eq : t.outline = e.outline
  goesOn_eq : Grammar.goesOn t = lastGoesOn e.tokens

namespace Depicts

variable {l : Level} {u v : List Char} {ta tb : Tree} {gap gap' : String}

theorem parens
    {e : Expression .dollar} {t : Tree}
    (hgap : IsGap gap) (h : Depicts e u t) (hgap' : IsGap gap') :
    Depicts (.parens e) (parensTree gap t gap').text.toList
      (parensTree gap t gap') where
  derives := .parens hgap h.derives hgap'
  text_eq := rfl
  outline_eq := by
    rw [Tree.outline_parensTree, h.outline_eq]
    rfl
  goesOn_eq := by
    rw [tokens, lastGoesOn_cons _ (by simp), lastGoesOn_append _ (by simp)]
    rfl

theorem apply
    {f : Expression .application} {a : Expression .atom}
    (hf : Depicts f u ta) (hgap : IsGap gap) (ha : Depicts a v tb)
    (hstop : starts (lastGoesOn f.tokens) (gap.toList ++ v) = false) :
    Depicts (.apply f a) (applyTree ta gap tb).text.toList
      (applyTree ta gap tb) where
  derives := .apply hf.derives hgap ha.derives (by rwa [hf.goesOn_eq, ha.text_eq])
  text_eq := rfl
  outline_eq := by
    rw [Tree.outline_applyTree, hf.outline_eq, ha.outline_eq]
    rfl
  goesOn_eq := by
    rw [goesOn_applyTree, ha.goesOn_eq, tokens, lastGoesOn_append _ a.tokens_ne_nil]

section Operators

variable {op : String} (hop : isOperatorToken op.toList = true)

theorem goesOn_infixTree
    {l' : Level} {b : Expression l'} (xs : List Token)
    (hb : Depicts b v tb) :
    Grammar.goesOn (infixTree ta gap op gap' tb) =
      lastGoesOn (xs ++ .operator op hop :: b.tokens) := by
  rw [Grammar.goesOn_infixTree, hb.goesOn_eq, lastGoesOn_append _ (by simp),
    lastGoesOn_cons _ b.tokens_ne_nil]

theorem left
    {a : Expression l} {b : Expression l.lower}
    (hl : l ≠ .dollar) (ha : Depicts a u ta) (hgap : IsGap gap)
    (hlevel : (Binding.ofOperator op).level = l)
    (hgap' : IsGap gap') (hb : Depicts b v tb) :
    Depicts (.left hl a op hop hlevel b)
      (infixTree ta gap op gap' tb).text.toList
      (infixTree ta gap op gap' tb) where
  derives :=
    .left hl ha.derives hgap (isOperator_of_level hop hlevel) hgap' hb.derives
  text_eq := rfl
  outline_eq := by
    rw [Tree.outline_infixTree, ha.outline_eq, hb.outline_eq]
    rfl
  goesOn_eq := hb.goesOn_infixTree hop a.tokens

theorem right
    {a : Expression .custom} {b : Expression .dollar}
    (ha : Depicts a u ta) (hgap : IsGap gap)
    (hlevel : (Binding.ofOperator op).level = .dollar)
    (hgap' : IsGap gap') (hb : Depicts b v tb) :
    Depicts (.right a op hop hlevel b) (infixTree ta gap op gap' tb).text.toList
      (infixTree ta gap op gap' tb) where
  derives :=
    .right ha.derives hgap (isOperator_of_level hop hlevel) hgap' hb.derives
  text_eq := rfl
  outline_eq := by
    rw [Tree.outline_infixTree, ha.outline_eq, hb.outline_eq]
    rfl
  goesOn_eq := hb.goesOn_infixTree hop a.tokens

end Operators

end Depicts

/-- An operator between two expressions is written as it is between their
trees. -/
theorem exists_infixTree
    {l l' : Level} {a : Expression l} {b : Expression l'} {op : String}
    {hop : isOperatorToken op.toList = true}
    {w : List Char}
    (h : Spaced (a.tokens ++ .operator op hop :: b.tokens) w)
    (iha : ∀ {u}, Spaced a.tokens u → ∃ t, Depicts a u t)
    (ihb : ∀ {v}, Spaced b.tokens v → ∃ t, Depicts b v t) :
    ∃ u v ta tb gap gap',
      Depicts a u ta ∧ IsGap gap ∧ IsGap gap' ∧ Depicts b v tb ∧
      (infixTree ta gap op gap' tb).text.toList = w := by
  obtain ⟨u, gap, v, hu, hgap, hv, rfl, -⟩ := h.split a.tokens_ne_nil (by simp)
  obtain ⟨gap', v, hgap', hv', rfl⟩ := hv.uncons b.tokens_ne_nil
  obtain ⟨ta, ha⟩ := iha hu
  obtain ⟨tb, hb⟩ := ihb hv'
  refine ⟨u, v, ta, tb, gap, gap', ha, hgap, hgap', hb, ?_⟩
  simp [infixTree, Token.word, List.append_assoc, ha.text_eq, hb.text_eq]

/-- Every way to write an expression is the text of a tree of the expression. -/
theorem exists_depicts
    {l : Level} (e : Expression l) {w : List Char}
    (h : Spaced e.tokens w) :
    ∃ t, Depicts e w t := by
  induction e generalizing w with
  | integer v hv =>
      cases h
      exact ⟨.leaf "integer" v, .integer hv, rfl, rfl, rfl⟩
  | text v hv =>
      cases h
      exact ⟨.leaf "string" v, .text hv, rfl, rfl, rfl⟩
  | name v hv =>
      cases h
      exact ⟨.leaf "variable" v, .name hv, rfl, rfl, rfl⟩
  | parens e ih =>
      obtain ⟨gap, v, hgap, hv, rfl⟩ := h.uncons (by simp)
      obtain ⟨u, gap', v, hu, hgap', hclosing, rfl, -⟩ :=
        hv.split e.tokens_ne_nil (by simp)
      obtain ⟨t, ht⟩ := ih hu
      cases hclosing
      refine ⟨parensTree gap t gap',
        { Depicts.parens hgap ht hgap' with text_eq := ?_ }⟩
      simp [parensTree, Token.word, List.append_assoc, ht.text_eq]
  | single hl e ih =>
      obtain ⟨t, ht, htext, houtline, hgoesOn⟩ := ih h
      exact ⟨t, .single hl ht, htext, houtline, hgoesOn⟩
  | apply f a ihf iha =>
      obtain ⟨u, gap, v, hu, hgap, hv, rfl, hclings⟩ :=
        h.split f.tokens_ne_nil a.tokens_ne_nil
      obtain ⟨tf, hf⟩ := ihf hu
      obtain ⟨ta, ha⟩ := iha hv
      refine ⟨applyTree tf gap ta,
        { hf.apply hgap ha (starts_lastGoesOn hgap hv hclings) with text_eq := ?_ }⟩
      simp [applyTree, List.append_assoc, hf.text_eq, ha.text_eq]
  | left hl a op hop hlevel b iha ihb =>
      obtain ⟨u, v, ta, tb, gap, gap', ha, hgap, hgap', hb, htext⟩ :=
        exists_infixTree h iha ihb
      exact ⟨infixTree ta gap op gap' tb,
        { Depicts.left hop hl ha hgap hlevel hgap' hb with text_eq := htext }⟩
  | right a op hop hlevel b iha ihb =>
      obtain ⟨u, v, ta, tb, gap, gap', ha, hgap, hgap', hb, htext⟩ :=
        exists_infixTree h iha ihb
      exact ⟨infixTree ta gap op gap' tb,
        { Depicts.right hop ha hgap hlevel hgap' hb with text_eq := htext }⟩

end Expression

section Closing

variable {n : Nat} {rest next : List Char}
  (hrest : Fills n rest next) (hn : 0 < n ∨ next = []) (hnext : Solid next)
include hrest hn hnext

/-- Before a filler, a written expression is read with some of the layout in the
filler. -/
theorem Expression.exists_reading
    {e : Expression .dollar} {w : List Char}
    (h : Spaced e.tokens w) :
    ∃ p rest', Reading .dollar (BareAt .dollar) (w ++ rest) p rest' ∧
      p.tree.outline = e.outline ∧ Fills n rest' next := by
  obtain ⟨t, ht, rfl, houtline, -⟩ := e.exists_depicts h
  have hstop := starts_goesOn_of_isNamePart t (hrest.starts_isNamePart hn)
  have hstands : Stands .dollar (t.text.toList ++ rest) t rest := ⟨ht, rfl, hstop⟩
  obtain ⟨trail, rest', hread, rfl⟩ := hstands.exists_reading (BareAt .dollar)
  exact ⟨⟨t, trail⟩, rest', hread, houtline, hrest.behind_trail hnext hread.trail⟩

theorem exists_equates
    {e : Expression .dollar} {w : List Char}
    (h : Spaced (.equals :: e.tokens) w) :
    ∃ m rest', Equates (w ++ rest) m rest' ∧
      m.outline = ⟨"match", "", [.leaf "=" "=", e.outline]⟩ ∧
      Fills n rest' next := by
  obtain ⟨gap, v, hgap, hv, rfl⟩ := h.uncons e.tokens_ne_nil
  obtain ⟨p, rest', hp, houtline, hfills⟩ :=
    Expression.exists_reading hrest hn hnext hv
  refine ⟨matchTree gap p, rest', ?_, ?_, hfills⟩
  · have hequates := Equates.intro hgap hp
    simpa [Token.word] using hequates
  · rw [← houtline]
    rfl

omit hrest hn hnext in
/-- The parameters of a function are written with gaps between them, and with a
gap before the equals sign. -/
theorem exists_parameters
    {xs : List Token} (x : Name) (others : List Name) {w : List Char}
    (h : Spaced ((x :: others).map (fun x => Token.name x.1 x.2) ++ .equals :: xs) w) :
    ∃ text gap v, IsGap gap ∧ Spaced (.equals :: xs) v ∧
      ∀ rest, Parameters (w ++ rest) text ((x :: others).map (·.1))
        (gap.toList ++ (v ++ rest)) := by
  induction others generalizing x w with
  | nil =>
      obtain ⟨gap, v, hgap, hv, rfl⟩ := h.uncons (List.cons_ne_nil _ _)
      refine ⟨x.1, gap, v, hgap, hv, fun rest => ?_⟩
      have hstop : starts isNamePart (gap.toList ++ (v ++ rest)) = false := by
        obtain ⟨y, ys, u, hy, rfl⟩ := hv.exists_head
        cases hy
        exact Apart.isBlank_isNamePart.starts_append hgap rfl
      have hone := Parameters.one x.2 hstop
      simpa [Token.word, List.append_assoc] using hone
  | cons y others ih =>
      cases h with
      | cons hgap hclings h =>
          rename_i gap w
          obtain ⟨text, gap', v, hgap', hv, hparameters⟩ := ih y h
          refine ⟨x.1 ++ gap ++ text, gap', v, hgap', hv, fun rest => ?_⟩
          have hstop :=
            starts_gap_of_ne hgap (hclings rfl) Apart.isBlank_isNamePart
              (w ++ rest)
          have hmore := Parameters.more x.2 hgap hstop (hparameters rest)
          simpa [Token.word, List.append_assoc] using hmore

theorem exists_declares
    (d : Declaration) {w : List Char}
    (h : Spaced d.tokens w) :
    ∃ t rest', Declares (w ++ rest) t rest' ∧ t.outline = d.outline ∧
      Fills n rest' next := by
  cases d with
  | function name parameter others e =>
      cases h with
      | cons hgap hclings h =>
          rename_i gap w
          obtain ⟨text, gap', v, hgap', hv, hparameters⟩ :=
            exists_parameters parameter others h
          obtain ⟨m, rest', hm, houtline, hfills⟩ :=
            exists_equates hrest hn hnext hv
          have hstop :=
            starts_gap_of_ne hgap (hclings rfl) Apart.isBlank_isNamePart
              (w ++ rest)
          have hdefines :=
            Defines.intro name.2 hgap hstop (hparameters rest) hgap' hm
          refine ⟨functionTree name.1 gap text ((parameter :: others).map (·.1))
            gap' m, rest', .function ?_, ?_, hfills⟩
          · simpa [Token.word, List.append_assoc] using hdefines
          · rw [Declaration.outline, ← houtline, List.map_cons,
              Tree.outline_functionTree, ← List.map_cons, List.map_map]
            rfl
  | bind name e =>
      obtain ⟨gap, v, hgap, hv, rfl⟩ := h.uncons (List.cons_ne_nil _ _)
      obtain ⟨m, rest', hm, houtline, hfills⟩ := exists_equates hrest hn hnext hv
      have hbinds := Binds.intro name.2 hgap hm
      refine ⟨bindTree name.1 gap m, rest', .bind ?_, ?_, hfills⟩
      · simpa [Token.word, List.append_assoc] using hbinds
      · rw [Declaration.outline, ← houtline]
        rfl
  | splice e =>
      obtain ⟨p, rest', hp, houtline, hfills⟩ :=
        Expression.exists_reading hrest hn hnext h
      refine ⟨spliceTree p, rest', .splice hp, ?_, hfills⟩
      rw [Declaration.outline, ← houtline]
      rfl

end Closing

/-- What is written as the body of a program is one, with the trees of the
declarations. -/
theorem Laid.exists_body
    {ds : List Declaration} {input : List Char}
    (h : Laid ds input) :
    ∃ ts, Body input ts ∧ ts.map Tree.outline = ds.map Declaration.outline := by
  induction h with
  | @last _ d _ _ hd hrest =>
      obtain ⟨t, rest', ht, houtline, hfills⟩ :=
        exists_declares hrest (Or.inr rfl) .nil d hd
      exact ⟨[t], .last ht hfills, by simp [houtline]⟩
  | @more n d _ _ _ _ hd hrest _ ih =>
      obtain ⟨ts, hbody, houtlines⟩ := ih
      obtain ⟨t, rest', ht, houtline, hfills⟩ :=
        exists_declares hrest (Or.inl (Nat.succ_pos n)) hbody.solid d hd
      exact ⟨t :: ts, .more ht hfills hbody, by simp [houtline, houtlines]⟩

/-- What is written as a program is one, with the trees of the declarations. -/
theorem Written.exists_program
    {ds : List Declaration} {source : List Char}
    (h : Written ds source) :
    ∃ ts, Program source ts ∧ ts.map Tree.outline = ds.map Declaration.outline := by
  cases h with
  | empty hfills =>
      exact ⟨[], .empty hfills, rfl⟩
  | body hfills hlaid =>
      obtain ⟨ts, hbody, houtlines⟩ := hlaid.exists_body
      exact ⟨ts, .body hfills hbody, houtlines⟩

/-- Every way to write a program is accepted, and gives the tree of the
program. -/
theorem parse_written
    {ds : List Declaration} {source : String}
    (h : Written ds source.toList) :
    ∃ ts, parse source = .ok ⟨"declarations", source, ts⟩ ∧
      ts.map Tree.outline = ds.map Declaration.outline := by
  obtain ⟨ts, hprogram, houtlines⟩ := h.exists_program
  exact ⟨ts, parse_eq_ok_iff.2 ⟨ts, rfl, hprogram⟩, houtlines⟩

/-- One name applied to another. -/
def Name.applied (f a : Name) : Expression .dollar :=
  .single (by decide)
    (.single (l := .custom) (by decide) (.single (l := .sum) (by decide)
    (.single (l := .product) (by decide)
      (.apply (.single (by decide) (.name f.1 f.2)) (.name a.1 a.2)))))

/-- The function `k x = x $ y * 1`. -/
def applied : Declaration :=
  let x : Expression .application := .single (by decide) (.name "x" (by decide))
  let y : Expression .application := .single (by decide) (.name "y" (by decide))
  let one : Expression .application :=
    .single (by decide) (.integer "1" (by decide))
  let product : Expression .product :=
    .left (by decide) (.single (by decide) y) "*" rfl rfl one
  let loose (e : Expression .product) : Expression .custom :=
    .single (by decide) (.single (l := .sum) (by decide) e)
  .function ⟨"k", by decide⟩ ⟨"x", by decide⟩ []
    (.right (loose (.single (by decide) x)) "$" rfl rfl
      (.single (by decide) (loose product)))

theorem applied_written :
    Spaced applied.tokens "k  x=x $y*1".toList := by
  have h : Spaced applied.tokens _ :=
    .cons (g := "  ") rfl (by decide)
      (.cons (g := "") rfl (by decide) (.cons (g := "") rfl (by decide)
      (.cons (g := " ") rfl (by decide)
        (.cons (g := "") rfl (by decide) (.cons (g := "") rfl (by decide)
        (.cons (g := "") rfl (by decide) (.one _)))))))
  exact h

/-- Two declarations with a comment and three separators between them. -/
theorem parse_written_applied :
    ∃ ts, parse "\tk  x=x $y*1--so\n\n; k  x=x $y*1" =
        .ok ⟨"declarations", "\tk  x=x $y*1--so\n\n; k  x=x $y*1", ts⟩ ∧
      ts.map Tree.outline = [applied.outline, applied.outline] := by
  have hlast : Laid [applied] ("k  x=x $y*1".toList ++ []) :=
    .last applied_written (.done [])
  have hfills : Fills 3 "--so\n\n; k  x=x $y*1".toList ("k  x=x $y*1".toList ++ []) :=
    .comment (v := ['s', 'o']) rfl rfl
      (.separator rfl (.separator rfl (.separator rfl (.blank rfl (.done _)))))
  have hwritten : Written [applied, applied]
      "\tk  x=x $y*1--so\n\n; k  x=x $y*1".toList :=
    .body (.blank rfl (.done _)) (.more applied_written hfills hlast)
  exact parse_written hwritten

end Curried
