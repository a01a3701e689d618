import Curried.Grammar.Program
import Curried.Proofs.Repetition

/-!
# What stands between declarations

Blanks, separators and comments, in any order.

**Fillers.**  `Fills n input rest` says that the input is such a mixture, with
`n` separators in it, and then `rest`.  A comment goes on to the end of its line
or to the end of the input.

**Reading.**  The parser reads layout, separators with layout between them, and
layout again.  `skip_eq_iff` says that this takes all that can be taken.
-/

namespace Curried

namespace Grammar

open Lexeme Curried.Parser

/-- A semicolon or the end of a line. -/
def isSeparator (c : Char) : Bool :=
  c == ';' || isLineEnd c

theorem apart_isSeparator
    {q : Char → Bool}
    (h : q ';' = false ∧ q '\n' = false ∧ q '\r' = false) :
    Apart isSeparator q := by
  intro c hc
  simp only [isSeparator, isLineEnd, Bool.or_eq_true, beq_iff_eq] at hc
  rcases hc with rfl | rfl | rfl
  · exact h.1
  · exact h.2.1
  · exact h.2.2

/-- Blanks, comments and `n` separators, and then `rest`. -/
inductive Fills : Nat → List Char → List Char → Prop
  | done (rest : List Char) :
      Fills 0 rest rest
  | blank {n : Nat} {c : Char} {w rest : List Char} :
      isBlank c = true → Fills n w rest →
      Fills n (c :: w) rest
  | separator {n : Nat} {c : Char} {w rest : List Char} :
      isSeparator c = true → Fills n w rest →
      Fills (n + 1) (c :: w) rest
  | comment {n : Nat} {v w rest : List Char} :
      v.all (fun c => !isLineEnd c) = true →
      starts (fun c => !isLineEnd c) w = false → Fills n w rest →
      Fills n ('-' :: '-' :: (v ++ w)) rest

/-- Neither layout nor a separator is in front. -/
structure Solid (w : List Char) : Prop where
  layout : layoutOf w = []
  separator : starts isSeparator w = false

namespace Fills

variable {n m : Nat} {input mid rest : List Char}

theorem trans
    (h : Fills n input mid) (h' : Fills m mid rest) :
    Fills (n + m) input rest := by
  induction h with
  | done =>
      rw [Nat.zero_add]
      exact h'
  | blank hc _ ih =>
      exact .blank hc (ih h')
  | separator hc _ ih =>
      rw [Nat.succ_add]
      exact .separator hc (ih h')
  | comment hbody hw _ ih =>
      exact .comment hbody hw (ih h')

theorem length_le
    (h : Fills n input rest) :
    rest.length ≤ input.length := by
  induction h with
  | done => exact Nat.le_refl _
  | blank _ _ ih | separator _ _ ih => exact Nat.le_succ_of_le ih
  | comment _ _ _ ih =>
      simp only [List.length_cons, List.length_append]
      omega

theorem of_blank
    {gap : List Char}
    (hgap : gap.all isBlank = true) (rest : List Char) :
    Fills 0 (gap ++ rest) rest := by
  induction gap with
  | nil =>
      exact .done rest
  | cons c gap ih =>
      simp only [List.all_cons, Bool.and_eq_true] at hgap
      exact .blank hgap.1 (ih hgap.2)

/-- Layout is a filler, whatever stands behind it. -/
theorem of_layout
    (h : Fills n (afterLayout input) rest) :
    Fills n input rest := by
  have hcomment : Fills n (input.dropWhile isBlank) rest := by
    unfold afterLayout at h
    rcases comment_cases (input.dropWhile isBlank) with ⟨w, hw⟩ | ⟨-, hafter⟩
    · rw [hw] at h ⊢
      rw [← List.takeWhile_append_dropWhile (p := fun c => !isLineEnd c) (l := w)]
      exact .comment List.all_takeWhile (starts_dropWhile _ w) h
    · rwa [hafter] at h
  have hall :=
    (of_blank (List.all_takeWhile (p := isBlank) (l := input))
      (input.dropWhile isBlank)).trans hcomment
  rwa [List.takeWhile_append_dropWhile, Nat.zero_add] at hall

/-- If there is a separator in a filler, then only layout stands before the
first one. -/
theorem starts_afterLayout
    (h : Fills n input rest) (hn : 0 < n) :
    starts isSeparator (afterLayout input) = true := by
  induction h with
  | done =>
      exact absurd hn (Nat.lt_irrefl 0)
  | @blank _ c w _ hc _ ih =>
      rw [afterLayout_cons_of_isBlank hc]
      exact ih hn
  | @separator _ c w _ hc _ _ =>
      have hlayout : layoutOf (c :: w) = [] :=
        layoutOf_of_starts (p := isSeparator) ⟨.isBlank (by decide), by decide⟩ hc
      rw [afterLayout_of_layoutOf hlayout]
      exact hc
  | @comment _ body w _ hbody hw _ ih =>
      rw [afterLayout_of_layoutOf (layoutOf_of_line_end hw)] at ih
      rw [afterLayout_comment hbody hw]
      exact ih hn

theorem afterLayout_eq_nil
    (h : Fills n input rest) (hn : n = 0) (hrest : rest = []) :
    afterLayout input = [] := by
  induction h with
  | done =>
      rw [hrest]
      rfl
  | @blank _ c w _ hc _ ih =>
      rw [afterLayout_cons_of_isBlank hc]
      exact ih hn hrest
  | separator =>
      cases hn
  | @comment _ body w _ hbody hw _ ih =>
      have hnil := ih hn hrest
      rw [afterLayout_of_layoutOf (layoutOf_of_line_end hw)] at hnil
      rw [afterLayout_comment hbody hw]
      exact hnil

end Fills

theorem takeSeparator_eq_some
    {input rest : List Char} {u : Unit}
    (h : takeSeparator input = some (u, rest)) :
    ∃ n, Fills (n + 1) input rest := by
  unfold takeSeparator at h
  split at h
  · cases h
    exact ⟨0, .separator rfl (.done rest)⟩
  · cases h
    exact ⟨0, .separator rfl (.done rest)⟩
  · cases h
    exact ⟨1, .separator rfl (.separator rfl (.done rest))⟩
  · cases h
    exact ⟨0, .separator rfl (.done rest)⟩
  · cases h

theorem takeSeparator_eq_none_iff
    {w : List Char} :
    takeSeparator w = none ↔ starts isSeparator w = false := by
  cases w with
  | nil =>
      simp [takeSeparator]
  | cons c w =>
      rw [starts_cons]
      cases hc : isSeparator c with
      | false =>
          simp only [iff_true]
          unfold takeSeparator
          split <;> simp_all [isSeparator, isLineEnd]
      | true =>
          simp only [Bool.true_eq_false, iff_false]
          simp only [isSeparator, isLineEnd, Bool.or_eq_true, beq_iff_eq] at hc
          unfold takeSeparator
          rcases hc with rfl | rfl | rfl <;> split <;> simp_all

theorem consumes_separator : Consumes separator.run := by
  intro input u rest h
  change takeSeparator input = some (u, rest) at h
  unfold takeSeparator at h
  split at h <;> cases h <;> simp only [List.length_cons] <;> omega

theorem not_solid_blank
    {c : Char}
    (hc : isBlank c = true) (w : List Char) :
    ¬ Solid (c :: w) := by
  intro h
  have hone : [c].all isBlank = true := by simp [hc]
  have hlayout := layoutOf_blank_append hone w
  rw [List.singleton_append, h.layout] at hlayout
  cases hlayout

theorem not_solid_separator
    {c : Char}
    (hc : isSeparator c = true) (w : List Char) :
    ¬ Solid (c :: w) := by
  intro h
  have := h.separator
  rw [starts_cons, hc] at this
  cases this

theorem not_solid_comment
    (w : List Char) :
    ¬ Solid ('-' :: '-' :: w) := by
  intro h
  have := h.layout
  cases this

/-- A filler ends where something solid stands behind it. -/
theorem Fills.unique
    {n m : Nat} {input rest rest' : List Char}
    (h : Fills n input rest) (hrest : Solid rest)
    (h' : Fills m input rest') (hrest' : Solid rest') :
    rest = rest' := by
  -- the first character tells how the filler goes on
  have hapart : Apart isBlank isSeparator := .isBlank (by decide)
  induction h generalizing m with
  | done =>
      cases h' with
      | done => rfl
      | blank hc => exact absurd hrest (not_solid_blank hc _)
      | separator hc => exact absurd hrest (not_solid_separator hc _)
      | comment => exact absurd hrest (not_solid_comment _)
  | @blank _ c _ _ hc _ ih =>
      cases h' with
      | done => exact absurd hrest' (not_solid_blank hc _)
      | blank _ h' => exact ih hrest h'
      | separator hc' => exact absurd (hapart c hc) (by simp [hc'])
      | comment => exact absurd hc (by decide)
  | @separator _ c _ _ hc _ ih =>
      cases h' with
      | done => exact absurd hrest' (not_solid_separator hc _)
      | blank hc' => exact absurd (hapart c hc') (by simp [hc])
      | separator _ h' => exact ih hrest h'
      | comment => exact absurd hc (by decide)
  | @comment _ body w _ hbody hw _ ih =>
      generalize hinput : '-' :: '-' :: (body ++ w) = input at h'
      cases h' with
      | done =>
          rw [← hinput] at hrest'
          exact absurd hrest' (not_solid_comment _)
      | blank hc' =>
          cases hinput
          exact absurd hc' (by decide)
      | separator hc' =>
          cases hinput
          exact absurd hc' (by decide)
      | @comment _ body' w' _ hbody' hw' h' =>
          simp only [List.cons.injEq, true_and] at hinput
          have hdrop := (takeWhile_run hbody hw).2
          rw [hinput, (takeWhile_run hbody' hw').2] at hdrop
          subst hdrop
          exact ih hrest h'

/-- The layout in front of a filler can be left out. -/
theorem Fills.behind_layout
    {n : Nat} {input rest : List Char}
    (h : Fills n input rest) (hrest : Solid rest) :
    Fills n (afterLayout input) rest := by
  induction h with
  | done =>
      rw [afterLayout_of_layoutOf hrest.layout]
      exact .done _
  | blank hc _ ih =>
      rw [afterLayout_cons_of_isBlank hc]
      exact ih hrest
  | @separator _ c w _ hc h _ =>
      have hlayout : layoutOf (c :: w) = [] :=
        layoutOf_of_starts (p := isSeparator) ⟨.isBlank (by decide), by decide⟩ hc
      rw [afterLayout_of_layoutOf hlayout]
      exact .separator hc h
  | comment hbody hw h _ =>
      rw [afterLayout_comment hbody hw]
      exact h

/-- Layout that was taken behind an expression is a filler. -/
theorem Fills.of_trail
    {bare : Prop} {trail rest : List Char}
    (h : Trail bare trail rest) :
    Fills 0 (trail ++ rest) rest := by
  by_cases hbare : bare
  · rw [h.nothing hbare]
    exact .done rest
  · refine Fills.of_layout ?_
    rw [← h.rest_eq hbare]
    exact .done rest

/-- Layout that was taken behind an expression can be left out of the filler
that it belongs to. -/
theorem Fills.behind_trail
    {bare : Prop} {n : Nat} {trail rest next : List Char}
    (h : Fills n (trail ++ rest) next) (hnext : Solid next)
    (htrail : Trail bare trail rest) :
    Fills n rest next := by
  by_cases hbare : bare
  · rwa [htrail.nothing hbare, List.nil_append] at h
  · rw [htrail.rest_eq hbare]
    exact h.behind_layout hnext

/-- No filler starts with a character of a name. -/
theorem Fills.starts_isNamePart
    {n : Nat} {input rest : List Char}
    (h : Fills n input rest) (hn : 0 < n ∨ rest = []) :
    starts isNamePart input = false := by
  cases h with
  | done =>
      rw [hn.resolve_left (Nat.lt_irrefl 0)]
      rfl
  | blank hc => exact Apart.isBlank_isNamePart _ hc
  | separator hc =>
      exact (apart_isSeparator (by decide) : Apart isSeparator isNamePart) _ hc
  | comment => rfl

theorem fills_of_steps
    {input rest : List Char} {found : List (String × Unit)}
    (h : Steps (gapped separator.run) input found rest) :
    ∃ n, Fills n input rest := by
  induction h with
  | done =>
      exact ⟨0, .done _⟩
  | @next input mid _ x _ hread _ ih =>
      obtain ⟨n, ih⟩ := ih
      obtain ⟨m, hseparator⟩ :=
        takeSeparator_eq_some
          (gapped_eq_some_iff.1 (hread : _ = some ((x.1, x.2), mid))).2
      exact ⟨_, (hseparator.trans ih).of_layout⟩

/-- What is left behind layout, separators with layout between them, and layout
again. -/
def skip (input : List Char) : List Char :=
  afterLayout ((separators.run (afterLayout input)).elim (afterLayout input)
    Prod.snd)

theorem run_separators
    (input : List Char) :
    ∃ found rest, separators.run input = some ((), rest) ∧
      (spaced separator).run input = some (found, rest) := by
  rw [separators, run_bind, run_spaced]
  cases separator.run input with
  | none => exact ⟨_, _, rfl, rfl⟩
  | some r => exact ⟨_, _, rfl, rfl⟩

/-- Going on behind layout, separators and layout is going on behind all that
can be skipped. -/
theorem run_skip
    {α : Type} (p : Parser α) (input : List Char) :
    (do
      let _ ← layout
      separators
      let _ ← layout
      p : Parser α).run input = p.run (skip input) := by
  obtain ⟨found, rest, hrun, -⟩ := run_separators (afterLayout input)
  simp only [run_bind, run_layout, Option.bind_some, hrun, skip, Option.elim_some]

theorem fills_skip
    (input : List Char) :
    (∃ n, Fills n input (skip input)) ∧ Solid (skip input) := by
  obtain ⟨found, rest, hrun, hspaced⟩ := run_separators (afterLayout input)
  obtain ⟨hsteps, hstop⟩ :=
    (run_spaced_iff consumes_separator (layoutOf_afterLayout input)).1 hspaced
  obtain ⟨n, hfills⟩ := fills_of_steps hsteps
  have hskip : skip input = afterLayout rest := by
    rw [skip, hrun]
    rfl
  rw [hskip]
  refine ⟨⟨n, hfills.of_layout.trans (Fills.of_layout (.done _))⟩,
    layoutOf_afterLayout rest, ?_⟩
  exact takeSeparator_eq_none_iff.1 (gapped_eq_none_iff.1 hstop)

/-- A separator belongs to what is skipped. -/
theorem skip_of_takeSeparator
    {input mid : List Char} {u : Unit}
    (h : takeSeparator (afterLayout input) = some (u, mid)) :
    skip mid = skip input ∧ ∃ n, Fills (n + 1) input (skip input) := by
  obtain ⟨n, hn⟩ := takeSeparator_eq_some h
  obtain ⟨⟨m, hm⟩, hsolid⟩ := fills_skip mid
  obtain ⟨⟨k, hk⟩, hsolid'⟩ := fills_skip input
  have hall := hn.of_layout.trans hm
  have hskip := hall.unique hsolid hk hsolid'
  refine ⟨hskip, n + m, ?_⟩
  rw [← hskip, Nat.add_right_comm]
  exact hall

/-- All that can be taken is taken. -/
theorem skip_eq_iff
    {input rest : List Char} :
    skip input = rest ↔ (∃ n, Fills n input rest) ∧ Solid rest := by
  obtain ⟨⟨m, hfills⟩, hsolid⟩ := fills_skip input
  constructor
  · rintro rfl
    exact ⟨⟨m, hfills⟩, hsolid⟩
  · rintro ⟨⟨n, h⟩, hrest⟩
    exact hfills.unique hsolid h hrest

end Grammar

end Curried
