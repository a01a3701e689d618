import Curried.Proofs.Surface
import Mathlib.Data.List.Perm.Basic

/-!
# The same layout with other words

Where a name is replaced by another name, or a declaration by another
declaration, a program stays as it is written: what stands between the tokens
fits the new tokens as it did the old ones.

**Rewording.**  `Reworded xs ys w w'` says that two texts are the same but for
the tokens `xs` of the first and `ys` of the second one, which stand in the same
places.

**Rearranging.**  `Rearranged ds ds' w w'` says that two texts are the same but
for the order of some declarations, which is `ds` in the first and `ds'` in the
second one.  Each declaration takes its text along, and leaves the gap behind
it.

**Results.**
* `Written.reworded`: a way to write a program, reworded, is a way to write the
  program with the other words.
* `Written.rearranged`: a way to write a program, rearranged, is a way to write
  the program with its declarations in the other order.
-/

namespace Curried

open Grammar Lexeme

/-- The tokens are the same, or both are names. -/
inductive Token.Kindred : Token → Token → Prop
  | same (x : Token) :
      Kindred x x
  | name (v w : String) (hv : isName v.toList = true)
      (hw : isName w.toList = true) :
      Kindred (.name v hv) (.name w hw)

theorem Token.Kindred.clings_eq
    {x x' y y' : Token}
    (hx : x.Kindred x') (hy : y.Kindred y') :
    x.clings y = x'.clings y' := by
  cases hx with
  | same =>
      cases hy with
      | same => rfl
      | name => cases x <;> rfl
  | name =>
      cases hy with
      | same => cases y <;> rfl
      | name => rfl

/-- The texts are the same but for the tokens, which stand in the same
places. -/
inductive Reworded : List Token → List Token → List Char → List Char → Prop
  | done (w : List Char) :
      Reworded [] [] w w
  | space {xs ys : List Token} {w w' : List Char} (c : Char) :
      Reworded xs ys w w' → Reworded xs ys (c :: w) (c :: w')
  | token {xs ys : List Token} {w w' : List Char} (x y : Token) :
      Reworded xs ys w w' →
      Reworded (x :: xs) (y :: ys) (x.word.toList ++ w) (y.word.toList ++ w')

theorem Reworded.spaces
    {xs ys : List Token} {w w' : List Char}
    (h : Reworded xs ys w w') (gap : List Char) :
    Reworded xs ys (gap ++ w) (gap ++ w') := by
  induction gap with
  | nil => exact h
  | cons c gap ih => exact .space c ih

/-- Spaced tokens can be replaced by kindred ones. -/
theorem Spaced.reworded
    {xs ys : List Token} {u : List Char}
    (h : Spaced xs u) (hkindred : List.Forall₂ Token.Kindred xs ys) :
    ∃ v, Spaced ys v ∧ ∀ {xs' ys' : List Token} {w w' : List Char},
      Reworded xs' ys' w w' →
      Reworded (xs ++ xs') (ys ++ ys') (u ++ w) (v ++ w') := by
  induction h generalizing ys with
  | one x =>
      cases hkindred with
      | @cons _ y _ _ _ hnone =>
          cases hnone
          exact ⟨y.word.toList, .one y, fun hrest => .token x y hrest⟩
  | @cons x x₁ xs gap u hgap hclings _ ih =>
      cases hkindred with
      | @cons _ y _ _ hx hxs =>
          obtain ⟨v, hv, hreworded⟩ := ih hxs
          cases hxs with
          | @cons _ y₁ _ ys hx₁ hxs =>
              refine ⟨y.word.toList ++ (gap.toList ++ v), .cons hgap ?_ hv,
                fun hrest => ?_⟩
              · rw [← hx.clings_eq hx₁]
                exact hclings
              · have hall :=
                  Reworded.token x y ((hreworded hrest).spaces gap.toList)
                simpa only [List.cons_append, List.append_assoc] using hall

/-- A filler up to the middle of a line fits before everything. -/
theorem Grammar.Fills.exists_gap
    {n : Nat} {input rest : List Char}
    (h : Fills n input rest) (hrest : starts (fun c => !isLineEnd c) rest = true) :
    ∃ gap, input = gap ++ rest ∧ ∀ next, Fills n (gap ++ next) next := by
  induction h with
  | done rest =>
      exact ⟨[], rfl, .done⟩
  | @blank _ c _ _ hc _ ih =>
      obtain ⟨gap, rfl, hfills⟩ := ih hrest
      exact ⟨c :: gap, rfl, fun next => .blank hc (hfills next)⟩
  | @separator _ c _ _ hc _ ih =>
      obtain ⟨gap, rfl, hfills⟩ := ih hrest
      exact ⟨c :: gap, rfl, fun next => .separator hc (hfills next)⟩
  | @comment _ v _ rest hv hend _ ih =>
      obtain ⟨gap, rfl, hfills⟩ := ih hrest
      refine ⟨'-' :: '-' :: (v ++ gap),
        by simp only [List.cons_append, List.append_assoc], fun next => ?_⟩
      simp only [List.cons_append, List.append_assoc]
      refine .comment hv ?_ (hfills next)
      -- the comment ends with its line, so the filler goes on behind it
      cases gap with
      | nil => exact absurd (hrest.symm.trans hend) (by decide)
      | cons c gap => exact hend

theorem Laid.starts_input
    {ds : List Declaration} {input : List Char}
    (h : Laid ds input) :
    starts (fun c => !isLineEnd c) input = true := by
  have hatom : starts isAtomStart input = true := by
    obtain ⟨ts, hbody, -⟩ := h.exists_body
    cases hbody with
    | last ht _ => exact ht.starts_input
    | more ht _ _ => exact ht.starts_input
  obtain ⟨c, rest, rfl, hc⟩ := exists_cons_of_starts hatom
  simp [apart_isLineEnd_isAtomStart.symm c hc]

/-- The declarations have kindred tokens. -/
abbrev Declaration.Kindred (d d' : Declaration) : Prop :=
  List.Forall₂ Token.Kindred d.tokens d'.tokens

theorem Laid.reworded
    {ds ds' : List Declaration} {input : List Char}
    (h : Laid ds input) (hkindred : List.Forall₂ Declaration.Kindred ds ds') :
    ∃ input', Laid ds' input' ∧
      Reworded (ds.flatMap Declaration.tokens) (ds'.flatMap Declaration.tokens)
        input input' := by
  induction h generalizing ds' with
  | @last _ d _ rest hd hrest =>
      cases hkindred with
      | @cons _ d' _ _ hkindred hnone =>
          cases hnone
          obtain ⟨v, hv, hreworded⟩ := hd.reworded hkindred
          exact ⟨v ++ rest, .last hv hrest, hreworded (.done rest)⟩
  | @more _ d ds _ _ next hd hrest hlaid ih =>
      cases hkindred with
      | @cons _ d' _ ds' hkindred hothers =>
          obtain ⟨next', hlaid', hothers⟩ := ih hothers
          obtain ⟨v, hv, hreworded⟩ := hd.reworded hkindred
          obtain ⟨gap, rfl, hfills⟩ := hrest.exists_gap hlaid.starts_input
          exact ⟨v ++ (gap ++ next'), .more hv (hfills next') hlaid',
            hreworded (hothers.spaces gap)⟩

/-- A way to write a program, with kindred tokens in place of its own, is a way
to write the program with those tokens. -/
theorem Written.reworded
    {ds ds' : List Declaration} {source : List Char}
    (h : Written ds source) (hkindred : List.Forall₂ Declaration.Kindred ds ds') :
    ∃ source', Written ds' source' ∧
      Reworded (ds.flatMap Declaration.tokens) (ds'.flatMap Declaration.tokens)
        source source' := by
  cases h with
  | empty hfills =>
      cases hkindred
      exact ⟨source, .empty hfills, .done source⟩
  | body hfills hlaid =>
      obtain ⟨next', hlaid', hreworded⟩ := hlaid.reworded hkindred
      obtain ⟨gap, rfl, hgap⟩ := hfills.exists_gap hlaid.starts_input
      exact ⟨gap ++ next', .body (hgap next') hlaid', hreworded.spaces gap⟩

/-- The gap has a separator in it, and fits before everything. -/
def Separates (gap : List Char) : Prop :=
  ∃ n, ∀ next, Fills (n + 1) (gap ++ next) next

/-- The texts of declarations, each with a gap behind it. -/
def woven : List (Declaration × List Char) → List (List Char) → List Char
  | piece :: pieces, gap :: gaps => piece.2 ++ (gap ++ woven pieces gaps)
  | _, _ => []

/-- The pieces are declarations with their texts, and each has a separating gap
of its own. -/
inductive Weaves : List (Declaration × List Char) → List (List Char) → Prop
  | nil : Weaves [] []
  | cons {d : Declaration} {w gap : List Char}
      {pieces : List (Declaration × List Char)} {gaps : List (List Char)} :
      Spaced d.tokens w → Separates gap → Weaves pieces gaps →
      Weaves ((d, w) :: pieces) (gap :: gaps)

/-- The texts are the same but for the order of some declarations.  Each
declaration takes its text along, and the gaps between the declarations stay
where they are. -/
inductive Rearranged :
    List Declaration → List Declaration → List Char → List Char → Prop
  | intro (front back : List Char)
      {pieces pieces' : List (Declaration × List Char)}
      {gaps : List (List Char)} :
      Weaves pieces gaps → pieces.Perm pieces' →
      Rearranged (pieces.map Prod.fst) (pieces'.map Prod.fst)
        (front ++ (woven pieces gaps ++ back))
        (front ++ (woven pieces' gaps ++ back))

namespace Weaves

variable {pieces pieces' : List (Declaration × List Char)} {gaps : List (List Char)}

/-- The pieces with their gaps stand well in front of a program. -/
theorem laid
    {after : List Declaration} {rest : List Char}
    (h : Weaves pieces gaps) (hafter : Laid after rest) :
    Laid (pieces.map Prod.fst ++ after) (woven pieces gaps ++ rest) := by
  induction h with
  | nil => exact hafter
  | cons hd hgap _ ih =>
      obtain ⟨n, hgap⟩ := hgap
      have hall := Laid.more hd (hgap _) ih
      simpa [woven] using hall

/-- The gaps fit whatever the order of the pieces is. -/
theorem perm
    (h : Weaves pieces gaps) (hperm : pieces.Perm pieces') :
    Weaves pieces' gaps := by
  induction hperm generalizing gaps with
  | nil => exact h
  | cons _ _ ih =>
      cases h with
      | cons hd hgap h => exact .cons hd hgap (ih h)
  | swap =>
      cases h with
      | cons hd hgap h =>
          cases h with
          | cons hd' hgap' h => exact .cons hd' hgap (.cons hd hgap' h)
  | trans _ _ ih ih' => exact ih' (ih h)

end Weaves

/-- The front of a program, taken apart. -/
theorem Laid.exists_weaves
    {ds after : List Declaration} {input : List Char}
    (h : Laid (ds ++ after) input) (hne : after ≠ []) :
    ∃ pieces gaps rest, Weaves pieces gaps ∧ pieces.map Prod.fst = ds ∧
      input = woven pieces gaps ++ rest ∧ Laid after rest := by
  induction ds generalizing input with
  | nil => exact ⟨[], [], input, .nil, rfl, rfl, h⟩
  | cons d ds ih =>
      rw [List.cons_append] at h
      generalize hall : ds ++ after = all at h
      cases h with
      | last => exact absurd (List.append_eq_nil_iff.1 hall).2 hne
      | @more n _ _ w _ next hd hrest hlaid =>
          subst hall
          obtain ⟨gap, rfl, hgap⟩ := hrest.exists_gap hlaid.starts_input
          obtain ⟨pieces, gaps, rest, hweaves, rfl, rfl, hafter⟩ := ih hlaid
          exact ⟨(d, w) :: pieces, gap :: gaps, rest,
            .cons hd ⟨n, hgap⟩ hweaves, rfl, by simp [woven], hafter⟩

/-- A way to write a program, with some declarations in another order and what
stands between them left in its place, is a way to write the program with its
declarations in that order. -/
theorem Written.rearranged
    {before ds ds' after : List Declaration} {source : List Char}
    (h : Written (before ++ (ds ++ after)) source) (hne : after ≠ [])
    (hperm : ds.Perm ds') :
    ∃ source', Written (before ++ (ds' ++ after)) source' ∧
      Rearranged ds ds' source source' := by
  have hmore : ds ++ after ≠ [] := List.append_ne_nil_of_right_ne_nil ds hne
  generalize hall : before ++ (ds ++ after) = all at h
  cases h with
  | empty => exact absurd hall (List.append_ne_nil_of_right_ne_nil before hmore)
  | body hfills hlaid =>
      subst hall
      obtain ⟨gap, rfl, hgap⟩ := hfills.exists_gap hlaid.starts_input
      obtain ⟨pieces₀, gaps₀, _, hweaves₀, rfl, rfl, hrest⟩ :=
        hlaid.exists_weaves hmore
      obtain ⟨pieces, gaps, back, hweaves, rfl, rfl, hafter⟩ :=
        hrest.exists_weaves hne
      -- the declarations take their texts along
      obtain ⟨pieces', rfl, hpieces⟩ : ∃ pieces', pieces'.map Prod.fst = ds' ∧
          pieces.Perm pieces' := by
        have hsame : List.Forall₂ (fun d piece => d = Prod.fst piece)
            (pieces.map Prod.fst) pieces := by
          rw [← List.forall₂_map_right_iff, List.forall₂_eq_eq_eq]
        obtain ⟨pieces', hds', hpieces⟩ := List.perm_comp_forall₂ hperm.symm hsame
        rw [← List.forall₂_map_right_iff, List.forall₂_eq_eq_eq] at hds'
        exact ⟨pieces', hds'.symm, hpieces.symm⟩
      refine ⟨gap ++ (woven pieces₀ gaps₀ ++ (woven pieces' gaps ++ back)),
        .body (hgap _) ?_, ?_⟩
      · exact hweaves₀.laid ((hweaves.perm hpieces).laid hafter)
      · have hall :=
          Rearranged.intro (gap ++ woven pieces₀ gaps₀) back hweaves hpieces
        simpa only [List.append_assoc] using hall

end Curried
