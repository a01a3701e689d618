import Curried.Proofs.Derivation

/-!
# Expressions at the front of an input

`Reading l bare input p rest` says that the phrase `p`, an expression of level
`l` and the layout taken behind it, stands at the front of `input` with `rest`
behind it.

**Soundness.**  Whatever a reader of expressions reads stands at the front of
its input in this sense.  A chain is followed link by link: each link makes an
expression of the level of the chain out of the one before it.
-/

namespace Curried

namespace Grammar

open Lexeme Curried.Parser

/-- An expression of level `l` and the layout taken behind it stand at the front
of the input.  No layout is taken behind trees that are `bare`. -/
structure Reading
    (l : Level) (bare : Tree → Prop) (input : List Char) (p : Phrase)
    (rest : List Char) :
    Prop where
  derives : Derives l p.tree
  input_eq : input = p.tree.text.toList ++ (p.trail.toList ++ rest)
  trail : Trail (bare p.tree) p.trail.toList rest
  stops : starts (goesOn p.tree) (p.trail.toList ++ rest) = false

/-- A reader of level `l` leaves the layout behind the tree. -/
def BareAt (l : Level) (t : Tree) : Prop :=
  bareAt t = some l

/-- The reader of the last member of a chain of level `l` leaves the layout
behind the tree. -/
def BareIn (l : Level) (t : Tree) : Prop :=
  bareAt t = some l ∨ bareAt t = some l.lower

section Infix

variable {l : Level} {a b : Tree} {gap op gap' : String}

theorem bareAt_infixTree_left
    (hl : l ≠ .dollar) (hop : IsOperator l op.toList) :
    BareAt l (infixTree a gap op gap' b) ↔ BareAt l.lower b := by
  rw [BareAt, bareAt_infixTree, hop.2, climb_eq_some_iff hl]
  rfl

theorem bareAt_infixTree_right
    (hop : IsOperator .dollar op.toList) :
    BareAt .dollar (infixTree a gap op gap' b) ↔ BareIn .dollar b := by
  rw [BareAt, bareAt_infixTree, hop.2, climb_dollar_eq_some_iff]
  rfl

/-- A chain of several members takes the layout behind it as its last member
does. -/
theorem bareIn_infixTree
    (hop : IsOperator l op.toList) :
    BareIn l (infixTree a gap op gap' b) ↔
    BareAt l (infixTree a gap op gap' b) := by
  refine ⟨fun hb => hb.resolve_right fun hlower => ?_, Or.inl⟩
  rw [bareAt_infixTree, hop.2] at hlower
  have := Level.rank_lower_lt (Level.ofOperator_ne_lower hop.2).1
  rw [climb_eq_some hlower] at this
  omega

end Infix

namespace Reading

variable {l : Level} {input mid rest : List Char} {p : Phrase}

theorem layoutOf_behind
    {bare : Tree → Prop}
    (h : Reading l bare input p rest) :
    layoutOf (p.trail.toList ++ rest) = p.trail.toList ++ layoutOf rest :=
  h.trail.layoutOf_append

/-- A tighter expression is a chain of one member. -/
theorem single
    (hl : l ≠ .atom)
    (h : Reading l.lower (BareAt l.lower) input p rest) :
    Reading l (BareIn l) input p rest where
  derives := .single hl h.derives
  input_eq := h.input_eq
  trail :=
    h.trail.congr ⟨fun hb => hb.resolve_left (h.derives.bareAt_ne_of_lower hl),
      Or.inr⟩
  stops := h.stops

/-- A chain of one member takes the layout behind it. -/
theorem settle
    (hl : l ≠ .atom)
    (h : Reading l.lower (BareAt l.lower) input p rest) :
    Reading l (BareAt l) input (p.followedBy (String.ofList (layoutOf rest)))
      (afterLayout rest) where
  derives := .single hl h.derives
  input_eq := by
    rw [h.input_eq]
    simp [Phrase.followedBy, layoutOf_append_afterLayout]
  trail := by
    simp only [Phrase.followedBy, String.toList_append, String.toList_ofList]
    exact h.trail.settle (h.derives.bareAt_ne_of_lower hl)
  stops := by
    have hstops := h.stops
    simp only [Phrase.followedBy, String.toList_append, String.toList_ofList,
      List.append_assoc, layoutOf_append_afterLayout]
    exact hstops

end Reading

/-- A further member of a chain at the front of the input: layout, the operator,
layout, and the operand. -/
structure LinkAt
    (l : Level) (operand : List Char → Phrase → List Char → Prop)
    (input : List Char) (link : Link) (rest : List Char) : Prop where
  lead_eq : link.lead = String.ofList (layoutOf input)
  operator : IsOperator l link.operator.toList
  operand : ∃ mid,
    afterLayout input = link.operator.toList ++ mid ∧
    starts isOperatorChar mid = false ∧
    link.gap = String.ofList (layoutOf mid) ∧
    operand (afterLayout mid) link.operand rest

/-- Another operand for a further member. -/
theorem LinkAt.map
    {l : Level} {operand operand' : List Char → Phrase → List Char → Prop}
    {input mid rest : List Char} {link : Link} {p : Phrase}
    (h : LinkAt l operand input link mid)
    (hmap : ∀ next, next.length ≤ input.length → operand next link.operand mid →
      operand' next p rest) :
    LinkAt l operand' input ⟨link.lead, link.operator, link.gap, p⟩ rest where
  lead_eq := h.lead_eq
  operator := h.operator
  operand := by
    obtain ⟨mid', hmid', hstop, hgap, hoperand⟩ := h.operand
    refine ⟨mid', hmid', hstop, hgap, hmap _ ?_ hoperand⟩
    have hinput := congrArg List.length (layoutOf_append_afterLayout input)
    have hlength := congrArg List.length (layoutOf_append_afterLayout mid')
    rw [hmid'] at hinput
    simp only [List.length_append] at hinput hlength
    omega

theorem IsOperator.starts_append
    {l : Level} {w : List Char}
    (h : IsOperator l w) (rest : List Char) :
    starts isOperatorChar (w ++ rest) = true := by
  cases w with
  | nil =>
      have := h.2
      simp [Level.ofOperator, isCustom] at this
  | cons c w =>
      have := h.1
      simp only [List.all_cons, Bool.and_eq_true] at this
      exact this.1

/-- The layout in front of a character that ends no line is a gap. -/
theorem isGap_of_starts
    {q : Char → Bool} {input : List Char}
    (hq : Apart isLineEnd q)
    (h : starts q (afterLayout input) = true) :
    IsGap (String.ofList (layoutOf input)) := by
  obtain ⟨c, rest, hrest, hc⟩ := exists_cons_of_starts h
  rw [IsGap, String.toList_ofList]
  refine all_isBlank_layoutOf ?_
  rw [hrest]
  simp [hq.symm c hc]

theorem joinInfix_eq
    (p q : Phrase) (lead op gap : String) :
    joinInfix p lead op gap q =
      ⟨infixTree p.tree (p.trail ++ lead) op gap q.tree, q.trail⟩ := by
  simp [joinInfix, infixTree, Phrase.text, String.append_assoc]

/-- An operator that was read as such is not cut short. -/
theorem LinkAt.input_eq
    {l l' : Level} {bare : Tree → Prop} {input rest : List Char} {link : Link}
    (h : LinkAt l (Reading l' bare) input link rest) :
    input = link.lead.toList ++ (link.operator.toList ++ (link.gap.toList ++
      (link.operand.tree.text.toList ++ (link.operand.trail.toList ++ rest)))) := by
  obtain ⟨mid, hmid, -, hgap, hoperand⟩ := h.operand
  have hinput := layoutOf_append_afterLayout input
  have hmid' := layoutOf_append_afterLayout mid
  rw [h.lead_eq, hgap, String.toList_ofList, String.toList_ofList,
    ← hoperand.input_eq, hmid', ← hmid, hinput]

/-- An expression, an operator and another expression make an expression. -/
theorem Reading.join
    {l l₁ l₂ k : Level} {bare bare₁ bare₂ : Tree → Prop}
    {input mid rest : List Char} {p : Phrase} {link : Link}
    (h : Reading l₁ bare₁ input p mid)
    (hlink : LinkAt k (Reading l₂ bare₂) mid link rest)
    (hderives : IsGap (p.trail ++ link.lead) → IsGap link.gap →
      Derives l₂ link.operand.tree →
      Derives l (infixTree p.tree (p.trail ++ link.lead) link.operator link.gap
        link.operand.tree))
    (hbare : bare (infixTree p.tree (p.trail ++ link.lead) link.operator
      link.gap link.operand.tree) ↔ bare₂ link.operand.tree) :
    Reading l bare input
      (joinInfix p link.lead link.operator link.gap link.operand) rest := by
  obtain ⟨mid', hmid', -, hgap, hoperand⟩ := hlink.operand
  -- the layout behind the first expression is the gap before the operator,
  -- whoever took it
  have hlead : IsGap (p.trail ++ link.lead) := by
    have hbehind : p.trail ++ link.lead =
        String.ofList (layoutOf (p.trail.toList ++ mid)) := by
      rw [h.layoutOf_behind, hlink.lead_eq, String.ofList_append,
        String.ofList_toList]
    rw [hbehind]
    refine isGap_of_starts
      (.isLineEnd (by decide) : Apart isLineEnd isOperatorChar) ?_
    rw [h.trail.afterLayout_append, hmid']
    exact hlink.operator.starts_append mid'
  have hgap' : IsGap link.gap := by
    rw [hgap]
    refine isGap_of_starts apart_isLineEnd_isAtomStart ?_
    rw [hoperand.input_eq]
    exact hoperand.derives.starts_text_append _
  rw [joinInfix_eq]
  refine ⟨hderives hlead hgap' hoperand.derives, ?_, ?_, ?_⟩
  · rw [h.input_eq, hlink.input_eq]
    simp [infixTree, List.append_assoc]
  · exact hoperand.trail.congr hbare
  · exact hoperand.stops

/-- There is no layout in front of an expression. -/
theorem Derives.layoutOf_text
    {l : Level} {t : Tree}
    (h : Derives l t) (rest : List Char) :
    layoutOf (t.text.toList ++ rest) = [] := by
  exact layoutOf_of_starts ⟨apart_isBlank_isAtomStart,
    rfl⟩ (h.starts_text_append rest)

/-- No operator opens a comment. -/
theorem IsOperator.layoutOf_append
    {l : Level} {w rest : List Char}
    (h : IsOperator l w) (hrest : starts isOperatorChar rest = false) :
    layoutOf (w ++ rest) = [] := by
  have hapart : Apart isOperatorChar isBlank := .isOperatorChar (by decide)
  refine layoutOf_of_not_comment (hapart.starts_eq_false (h.starts_append rest)) ?_
  rcases comment_cases (w ++ rest) with ⟨v, hv⟩ | ⟨hcomment, -⟩
  · -- both minus signs would belong to the operator, which no level admits
    exfalso
    match w, h, hv with
    | [], h, _ =>
        have := h.starts_append []
        cases this
    | [c], _, hv =>
        simp only [List.cons_append, List.nil_append, List.cons.injEq] at hv
        rw [hv.2] at hrest
        simp [isOperatorChar] at hrest
    | c :: d :: w, h, hv =>
        simp only [List.cons_append, List.cons.injEq] at hv
        obtain ⟨rfl, rfl, -⟩ := hv
        have := h.2
        simp [Level.ofOperator, isCustom] at this
  · exact hcomment

/-- Only name characters go on with an expression. -/
theorem isNamePart_of_goesOn
    {t : Tree} {c : Char}
    (h : goesOn t c = true) :
    isNamePart c = true := by
  fun_induction goesOn t c with
  | case1 => exact h
  | case2 => simp [isNamePart, Char.isAlphanum, h]
  | case3 _ _ _ _ ih => exact ih h
  | case4 _ _ _ _ _ ih => exact ih h
  | case5 => cases h

theorem apart_goesOn
    {p : Char → Bool} (hp : Apart p isNamePart) (t : Tree) :
    Apart p (goesOn t) := by
  intro c hc
  cases h : goesOn t c with
  | false => rfl
  | true => rw [← isNamePart_of_goesOn h, hp c hc]

theorem starts_goesOn_of_isNamePart
    (t : Tree) {w : List Char}
    (hw : starts isNamePart w = false) :
    starts (goesOn t) w = false := by
  cases w with
  | nil =>
      rfl
  | cons c w =>
      cases h : goesOn t c with
      | false => exact h
      | true => rw [starts_cons, isNamePart_of_goesOn h] at hw; cases hw

/-- A gap and an operator do not go on with an expression. -/
theorem starts_goesOn_operator
    {l : Level} {gap : String} {w : List Char}
    (t : Tree) (hgap : IsGap gap) (hw : IsOperator l w) (rest : List Char) :
    starts (goesOn t) (gap.toList ++ (w ++ rest)) = false := by
  refine (apart_goesOn .isBlank_isNamePart t).starts_append hgap ?_
  exact (apart_goesOn (.isOperatorChar (by decide)) t).starts_eq_false
    (hw.starts_append rest)

/-- A gap and an expression behind an operator or an equals sign do not make it
longer. -/
theorem starts_isOperatorChar_gap
    {l : Level} {gap : String} {t : Tree}
    (hgap : IsGap gap) (ht : Derives l t) (rest : List Char) :
    starts isOperatorChar (gap.toList ++ (t.text.toList ++ rest)) = false :=
  Apart.starts_append (.isBlank (by decide)) hgap
    (apart_isOperatorChar_isAtomStart.symm.starts_eq_false
      (ht.starts_text_append rest))

/-- An expression made by an operator is its left side and a link. -/
theorem Reading.unjoin
    {l l₁ l₂ k : Level} {bare : Tree → Prop} (bare₁ bare₂ : Tree → Prop)
    {input rest : List Char} {a b : Tree} {gap op gap' trail : String}
    (h : Reading l bare input ⟨infixTree a gap op gap' b, trail⟩ rest)
    (ha : Derives l₁ a) (hgap : IsGap gap) (hop : IsOperator k op.toList)
    (hgap' : IsGap gap') (hb : Derives l₂ b)
    (hbare : bare (infixTree a gap op gap' b) ↔ bare₂ b) :
    ∃ behind mid lead,
      Reading l₁ bare₁ input ⟨a, behind⟩ mid ∧
      LinkAt k (Reading l₂ bare₂) mid ⟨lead, op, gap', ⟨b, trail⟩⟩ rest ∧
      joinInfix ⟨a, behind⟩ lead op gap' ⟨b, trail⟩ =
        ⟨infixTree a gap op gap' b, trail⟩ := by
  obtain ⟨next, hnext⟩ : ∃ next,
      next = b.text.toList ++ (trail.toList ++ rest) := ⟨_, rfl⟩
  have hinput : input = a.text.toList ++
      (gap.toList ++ (op.toList ++ (gap'.toList ++ next))) := by
    rw [h.input_eq, hnext]
    simp [infixTree, List.append_assoc]
  have hlayout : layoutOf next = [] := by
    rw [hnext]
    exact hb.layoutOf_text _
  have hstop : starts isOperatorChar (gap'.toList ++ next) = false := by
    rw [hnext]
    exact starts_isOperatorChar_gap hgap' hb _
  have hopen := hop.layoutOf_append hstop
  obtain ⟨behind, mid, hmid, htrail⟩ :=
    Trail.exists_split (bare₁ a) (gap.toList ++
      (op.toList ++ (gap'.toList ++ next)))
  -- the layout behind the left side is the gap, whoever takes it
  have hbehind : behind ++ layoutOf mid = gap.toList := by
    rw [← htrail.layoutOf_append, ← hmid, layoutOf_blank_append hgap, hopen,
      List.append_nil]
  have hafter : afterLayout mid = op.toList ++ (gap'.toList ++ next) := by
    rw [← htrail.afterLayout_append, ← hmid, afterLayout_blank_append hgap,
      afterLayout_of_layoutOf hopen]
  refine ⟨String.ofList behind, mid, String.ofList (layoutOf mid),
    ⟨ha, ?_, ?_, ?_⟩, ⟨rfl, hop, ?_⟩, ?_⟩
  · rw [hinput, hmid, String.toList_ofList]
  · rw [String.toList_ofList]
    exact htrail
  · rw [String.toList_ofList, ← hmid]
    exact starts_goesOn_operator a hgap hop _
  · refine ⟨gap'.toList ++ next, hafter, hstop, ?_, hb, ?_, ?_, h.stops⟩
    · rw [layoutOf_blank_append hgap', hlayout, List.append_nil,
        String.ofList_toList]
    · rw [afterLayout_blank_append hgap', afterLayout_of_layoutOf hlayout, hnext]
    · exact h.trail.congr hbare.symm
  · rw [joinInfix_eq, ← String.ofList_append, hbehind, String.ofList_toList]

/-- A link makes a longer chain that leans to the left. -/
theorem Reading.link_left
    {l : Level} {input mid rest : List Char} {p : Phrase} {link : Link}
    (hl : l ≠ .dollar)
    (h : Reading l (BareIn l) input p mid)
    (hlink : LinkAt l (Reading l.lower (BareAt l.lower)) mid link rest) :
    Reading l (BareAt l) input
      (joinInfix p link.lead link.operator link.gap link.operand) rest := by
  refine h.join hlink ?_ ?_
  · intro hlead hgap hoperand
    exact .left hl h.derives hlead hlink.operator hgap hoperand
  · exact bareAt_infixTree_left hl hlink.operator

/-- A chain that leans to the right gets a further member in front. -/
theorem Reading.link_right
    {input mid rest : List Char} {p : Phrase} {link : Link}
    (h : Reading .custom (BareAt .custom) input p mid)
    (hlink : LinkAt .dollar (Reading .dollar (BareIn .dollar)) mid link rest) :
    Reading .dollar (BareAt .dollar) input
      (joinInfix p link.lead link.operator link.gap link.operand) rest := by
  refine h.join hlink ?_ ?_
  · intro hlead hgap hoperand
    exact .right h.derives hlead hlink.operator hgap hoperand
  · exact bareAt_infixTree_right hlink.operator

theorem Reading.bareIn
    {l : Level} {input rest : List Char} {p q : Phrase} {lead op gap : String}
    (hop : IsOperator l op.toList)
    (h : Reading l (BareAt l) input (joinInfix p lead op gap q) rest) :
    Reading l (BareIn l) input (joinInfix p lead op gap q) rest where
  derives := h.derives
  input_eq := h.input_eq
  stops := h.stops
  trail := by
    refine h.trail.congr ?_
    rw [joinInfix_eq]
    exact bareIn_infixTree hop

end Grammar

end Curried
