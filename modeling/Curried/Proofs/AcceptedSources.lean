import Curried.Proofs.Surface

/-!
# Accepted sources

Every way to write a program is accepted.  Here is the other direction: an
accepted source is a way to write a program, the one whose tree it is read as.

**Tokens at the front.**  `Ahead xs input rest` says that the tokens stand at
the front of the input, with nothing but layout between them and the rest.

**Result.**  `exists_written`.
-/

namespace Curried

open Grammar Lexeme

/-- A token that needs a blank before it would otherwise go on with the token in
front. -/
theorem Token.starts_goesOn_of_clings
    {x y : Token}
    (h : x.clings y = true) :
    starts x.goesOn y.word.toList = true := by
  have hpart : ∀ {p : Char → Bool} {w : List Char},
      (∀ c, p c = true → isNamePart c = true) →
      starts p w = true → starts isNamePart w = true := by
    intro p w hp hw
    obtain ⟨c, rest, rfl, hc⟩ := exists_cons_of_starts hw
    exact hp c hc
  cases x with
  | integer =>
      cases y with
      | integer w hw => exact starts_of_isInteger _ hw
      | text | name | operator | opening | closing | equals => cases h
  | name =>
      cases y with
      | integer w hw =>
          refine hpart (fun c hc => ?_) (starts_of_isInteger _ hw)
          simp [isNamePart, Char.isAlphanum, hc]
      | name w hw =>
          refine hpart (fun c hc => ?_) (starts_of_isName _ hw)
          rcases Bool.or_eq_true_iff.1 hc with hc | hc <;>
            simp [isNamePart, Char.isAlphanum, hc]
      | text | operator | opening | closing | equals => cases h
  | text | operator | opening | closing | equals => cases h

/-- Tokens that do not go on with those in front are kept apart from them where
that is needed. -/
theorem ne_empty_of_clings
    {xs ys : List Token} {gap : String} {v : List Char}
    (hv : Spaced ys v) (h : starts (lastGoesOn xs) (gap.toList ++ v) = false) :
    ∀ x ∈ xs.getLast?, ∀ y ∈ ys.head?, x.clings y = true → gap ≠ "" := by
  rintro x hx y hy hclings rfl
  obtain ⟨y', ys, v, rfl, rfl⟩ := hv.exists_head
  obtain rfl : y' = y := Option.some.inj hy
  have hlast : lastGoesOn xs = x.goesOn := by
    funext c
    simp [lastGoesOn, Option.mem_def.1 hx]
  have hstarts := starts_append_of_starts (Token.starts_goesOn_of_clings hclings) v
  rw [hlast] at h
  exact absurd (hstarts.symm.trans h) (by decide)

/-- Two runs of tokens with a gap between them. -/
theorem Spaced.append
    {xs ys : List Token} {u v : List Char} {gap : String}
    (hu : Spaced xs u) (hgap : IsGap gap) (hv : Spaced ys v)
    (hclings : ∀ x ∈ xs.getLast?, ∀ y ∈ ys.head?, x.clings y = true → gap ≠ "") :
    Spaced (xs ++ ys) (u ++ (gap.toList ++ v)) := by
  induction hu with
  | one x =>
      obtain ⟨y, ys, _, rfl, -⟩ := hv.exists_head
      exact .cons hgap (hclings x rfl y rfl) hv
  | @cons x y zs g w hg hapart _ ih =>
      rw [List.getLast?_cons_cons] at hclings
      have hall := Spaced.cons hg hapart (ih hclings)
      simpa [List.append_assoc] using hall

/-- Two expressions with an operator between them. -/
theorem spaced_infix
    {l l' : Level} {a : Expression l} {b : Expression l'} {u v : List Char}
    {gap gap' op : String}
    (hu : Spaced a.tokens u) (hgap : IsGap gap)
    (hop : isOperatorToken op.toList = true)
    (hgap' : IsGap gap') (hv : Spaced b.tokens v) :
    Spaced (a.tokens ++ .operator op hop :: b.tokens)
      (u ++ (gap.toList ++ (op.toList ++ (gap'.toList ++ v)))) := by
  have hright : Spaced (.operator op hop :: b.tokens) (op.toList ++
      (gap'.toList ++ v)) := by
    refine Spaced.append (.one (.operator op hop)) hgap' hv ?_
    rintro _ ⟨⟩ y _ hclings
    cases y <;> cases hclings
  refine hu.append hgap hright ?_
  rintro x _ _ ⟨⟩ hclings
  cases x <;> cases hclings

/-- The tree of an expression is the tree of some way to write it. -/
theorem Grammar.Derives.exists_expression
    {l : Level} {t : Tree}
    (h : Derives l t) :
    ∃ e : Expression l, Spaced e.tokens t.text.toList ∧
      e.Depicts t.text.toList t := by
  have hlevel : ∀ {l : Level} {op : String}, IsOperator l op.toList →
      isOperatorToken op.toList = true ∧ (Binding.ofOperator op).level = l :=
    fun hop => ⟨isOperatorToken_iff.2 ⟨_, hop⟩, Binding.level_ofOperator hop.2⟩
  induction h with
  | @integer w hw =>
      exact ⟨.integer w hw, .one (.integer w hw), .integer hw, rfl, rfl, rfl⟩
  | @text w hw => exact ⟨.text w hw, .one (.text w hw), .text hw, rfl, rfl, rfl⟩
  | @name w hw => exact ⟨.name w hw, .one (.name w hw), .name hw, rfl, rfl, rfl⟩
  | @parens gap gap' t hgap _ hgap' ih =>
      obtain ⟨e, hspaced, hdepicts⟩ := ih
      refine ⟨.parens e, ?_, .parens hgap hdepicts hgap'⟩
      have hclosed : Spaced (e.tokens ++ [.closing]) (t.text.toList ++
          (gap'.toList ++ [')'])) := by
        refine hspaced.append hgap' (.one .closing) ?_
        rintro x _ _ ⟨⟩ hclings
        cases x <;> cases hclings
      have hall : Spaced (.opening :: (e.tokens ++ [.closing])) _ :=
        Spaced.append (.one .opening) hgap hclosed (by rintro _ ⟨⟩ y _ ⟨⟩)
      simpa [Expression.tokens, parensTree, Token.word, List.append_assoc]
        using hall
  | single hl _ ih =>
      obtain ⟨e, hspaced, hderives, htext, houtline, hgoesOn⟩ := ih
      exact ⟨.single hl e, hspaced, .single hl hderives, htext, houtline, hgoesOn⟩
  | @apply tf ta gap _ hgap _ hstop ihf iha =>
      obtain ⟨f, hf, hdf⟩ := ihf
      obtain ⟨a, ha, hda⟩ := iha
      rw [hdf.goesOn_eq] at hstop
      refine ⟨.apply f a, ?_, hdf.apply hgap hda hstop⟩
      have hall := hf.append hgap ha (ne_empty_of_clings ha hstop)
      simpa [Expression.tokens, applyTree, List.append_assoc] using hall
  | @left _ ta tb gap op gap' hl _ hgap hop hgap' _ iha ihb =>
      obtain ⟨a, ha, hda⟩ := iha
      obtain ⟨b, hb, hdb⟩ := ihb
      obtain ⟨htoken, hlevel⟩ := hlevel hop
      refine ⟨.left hl a op htoken hlevel b, ?_,
        .left htoken hl hda hgap hlevel hgap' hdb⟩
      have hall := spaced_infix ha hgap htoken hgap' hb
      simpa [Expression.tokens, infixTree, List.append_assoc] using hall
  | @right ta tb gap op gap' _ hgap hop hgap' _ iha ihb =>
      obtain ⟨a, ha, hda⟩ := iha
      obtain ⟨b, hb, hdb⟩ := ihb
      obtain ⟨htoken, hlevel⟩ := hlevel hop
      refine ⟨.right a op htoken hlevel b, ?_,
        .right htoken hda hgap hlevel hgap' hdb⟩
      have hall := spaced_infix ha hgap htoken hgap' hb
      simpa [Expression.tokens, infixTree, List.append_assoc] using hall

/-- The tokens stand at the front of the input, with nothing but layout between
them and the rest. -/
def Ahead (xs : List Token) (input rest : List Char) : Prop :=
  ∃ w after, Spaced xs w ∧ input = w ++ after ∧ Fills 0 after rest

/-- One more token in front. -/
theorem Ahead.cons
    {xs : List Token} {input rest : List Char} {gap : String}
    (h : Ahead xs input rest) (x : Token) (hgap : IsGap gap)
    (hclings : ∀ y ∈ xs.head?, x.clings y = true → gap ≠ "") :
    Ahead (x :: xs) (x.word.toList ++ (gap.toList ++ input)) rest := by
  obtain ⟨w, after, hw, rfl, hfills⟩ := h
  refine ⟨x.word.toList ++ (gap.toList ++ w), after, ?_,
    by simp only [List.append_assoc], hfills⟩
  refine Spaced.append (.one x) hgap hw ?_
  rintro _ ⟨⟩
  exact hclings

namespace Grammar

variable {input rest : List Char}

theorem Reading.exists_expression
    {bare : Tree → Prop} {p : Phrase}
    (h : Reading .dollar bare input p rest) :
    ∃ e : Expression .dollar, Ahead e.tokens input rest ∧
      p.tree.outline = e.outline := by
  obtain ⟨e, hspaced, hdepicts⟩ := h.derives.exists_expression
  exact ⟨e, ⟨_, _, hspaced, h.input_eq, .of_trail h.trail⟩, hdepicts.outline_eq⟩

theorem Equates.exists_expression
    {m : Tree}
    (h : Equates input m rest) :
    ∃ e : Expression .dollar, Ahead (.equals :: e.tokens) input rest ∧
      m.outline = ⟨"match", "", [.leaf "=" "=", e.outline]⟩ := by
  obtain ⟨hgap, hp⟩ := h
  obtain ⟨e, hahead, houtline⟩ := hp.exists_expression
  refine ⟨e, hahead.cons .equals hgap (by rintro y _ ⟨⟩), ?_⟩
  rw [← houtline]
  rfl

/-- The parameters of a function, with what stands behind them. -/
theorem Parameters.exists_names
    {text gap : String} {names : List String} {after mid : List Char}
    {xs : List Token}
    (h : Parameters input text names after) (hafter : after = gap.toList ++ mid)
    (hgap : IsGap gap)
    (hmid : Ahead (.equals :: xs) mid rest) :
    ∃ (x : Name) (others : List Name), names = (x :: others).map (·.1) ∧
      Ahead ((x :: others).map (fun x => Token.name x.1 x.2) ++ .equals :: xs)
        input rest := by
  induction h with
  | @one w _ hw _ =>
      subst hafter
      exact ⟨⟨w, hw⟩, [], rfl, hmid.cons (.name w hw) hgap (by rintro _ ⟨⟩ ⟨⟩)⟩
  | @more w gap _ _ next _ hw hgap hstop _ ih =>
      obtain ⟨x, others, rfl, hahead⟩ := ih hafter
      refine ⟨⟨w, hw⟩, x :: others, rfl, hahead.cons (.name w hw) hgap ?_⟩
      -- the next name would go on with this one
      rintro _ ⟨⟩ hclings rfl
      obtain ⟨v, after, hv, rfl, -⟩ := hahead
      obtain ⟨y, ys, v, hy, rfl⟩ := hv.exists_head
      cases hy
      have hstarts :=
        starts_append_of_starts
          (Token.starts_goesOn_of_clings (x := .name w hw) hclings) (v ++ after)
      rw [← List.append_assoc] at hstarts
      exact absurd (hstarts.symm.trans hstop) (by decide)

theorem Declares.exists_declaration
    {t : Tree}
    (h : Declares input t rest) :
    ∃ d : Declaration, Ahead d.tokens input rest ∧ t.outline = d.outline := by
  cases h with
  | function h =>
      obtain ⟨hname, hgap, hstop, hparameters, hgap', hm⟩ := h
      rename_i name gap text gap' names next mid m
      obtain ⟨e, hahead, houtline⟩ := hm.exists_expression
      -- the name of the function is one more name in front of the parameters
      have hall : Parameters (name.toList ++ (gap.toList ++ next))
          (name ++ gap ++ text) (name :: names) _ :=
        .more hname hgap hstop hparameters
      obtain ⟨x, others, hnames, hahead⟩ := hall.exists_names rfl hgap' hahead
      obtain ⟨rfl, hothers⟩ := List.cons.inj hnames
      cases others with
      | nil => exact absurd hothers hparameters.names.1
      | cons parameter others =>
          refine ⟨.function x parameter others e, hahead, ?_⟩
          rw [hothers, List.map_cons, Tree.outline_functionTree,
            houtline, ← List.map_cons, List.map_map]
          rfl
  | bind h =>
      obtain ⟨hname, hgap, hm⟩ := h
      rename_i name gap next m
      obtain ⟨e, hahead, houtline⟩ := hm.exists_expression
      refine ⟨.bind ⟨name, hname⟩ e,
        hahead.cons (.name name hname) hgap (by rintro _ ⟨⟩ ⟨⟩), ?_⟩
      rw [Declaration.outline, ← houtline]
      rfl
  | splice h =>
      obtain ⟨e, hahead, houtline⟩ := h.exists_expression
      refine ⟨.splice e, hahead, ?_⟩
      rw [Declaration.outline, ← houtline]
      rfl

theorem Body.exists_laid
    {ts : List Tree}
    (h : Body input ts) :
    ∃ ds, Laid ds input ∧ ts.map Tree.outline = ds.map Declaration.outline := by
  induction h with
  | last ht hfills =>
      obtain ⟨d, ⟨w, after, hw, rfl, hlayout⟩, houtline⟩ := ht.exists_declaration
      exact ⟨[d], .last hw (hlayout.trans hfills), by simp [houtline]⟩
  | more ht hfills _ ih =>
      obtain ⟨d, ⟨w, after, hw, rfl, hlayout⟩, houtline⟩ := ht.exists_declaration
      obtain ⟨ds, hlaid, houtlines⟩ := ih
      have hall := hlayout.trans hfills
      rw [Nat.zero_add] at hall
      exact ⟨d :: ds, .more hw hall hlaid, by simp [houtline, houtlines]⟩

end Grammar

/-- An accepted source is a way to write a program, the one whose tree it is
read as. -/
theorem exists_written
    {source : String} {t : Tree}
    (h : parse source = .ok t) :
    ∃ ds, Written ds source.toList ∧
      t.children.map Tree.outline = ds.map Declaration.outline := by
  obtain ⟨ts, rfl, hprogram⟩ := parse_eq_ok_iff.1 h
  cases hprogram with
  | empty hfills => exact ⟨[], .empty hfills, rfl⟩
  | body hfills hbody =>
      obtain ⟨ds, hlaid, houtlines⟩ := hbody.exists_laid
      exact ⟨ds, .body hfills hlaid, houtlines⟩

end Curried
