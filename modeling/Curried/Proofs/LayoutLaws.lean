import Curried.Proofs.Lexical

/-!
# Layout

Layout is a run of blanks, then possibly a comment up to the end of the line.

**Split.**  Every input is its layout and what comes after it, and what comes
after layout has no layout in front.  A comment is followed by the end of a line
or of the input, so layout with anything else behind it is blanks only.

**Trails.**  A reader of expressions takes the layout behind an expression with
it, or leaves it: `Trail bare trail rest` says what it took, where `bare` tells
that it leaves the layout.
-/

namespace Curried

namespace Lexeme

/-- What comes after the comment at the front of the input. -/
def afterComment : List Char → List Char
  | '-' :: '-' :: rest => rest.dropWhile (fun c => !isLineEnd c)
  | rest => rest

/-- What comes after the layout at the front of the input. -/
def afterLayout (input : List Char) : List Char :=
  afterComment (input.dropWhile isBlank)

/-- There is a comment at the front of the input, or there is none. -/
theorem comment_cases
    (w : List Char) :
    (∃ rest, w = '-' :: '-' :: rest) ∨ comment w = [] ∧ afterComment w = w := by
  fun_cases comment w with
  | case1 rest =>
      exact Or.inl ⟨rest, rfl⟩
  | case2 w hno =>
      refine Or.inr ⟨rfl, ?_⟩
      fun_cases afterComment w with
      | case1 rest => exact absurd rfl (hno rest)
      | case2 => rfl

theorem comment_append_afterComment
    (w : List Char) :
    comment w ++ afterComment w = w := by
  rcases comment_cases w with ⟨rest, rfl⟩ | ⟨hcomment, hafter⟩
  · simp [comment, afterComment]
  · simp [hcomment, hafter]

theorem layoutOf_append_afterLayout
    (input : List Char) :
    layoutOf input ++ afterLayout input = input := by
  rw [layoutOf, afterLayout, List.append_assoc, comment_append_afterComment,
    List.takeWhile_append_dropWhile]

@[simp] theorem run_layout
    (input : List Char) :
    layout.run input =
      some (String.ofList (layoutOf input), afterLayout input) := by
  have h : (layoutOf input ++ afterLayout input).drop (layoutOf input).length =
      afterLayout input :=
    List.drop_left
  rw [layoutOf_append_afterLayout] at h
  change some (_, input.drop (layoutOf input).length) = _
  rw [h]

/-- Blanks in front belong to the layout. -/
theorem layoutOf_blank_append
    {gap : List Char}
    (hgap : gap.all isBlank = true) (rest : List Char) :
    layoutOf (gap ++ rest) = gap ++ layoutOf rest := by
  have hmem : ∀ c ∈ gap, isBlank c = true := List.all_eq_true.1 hgap
  rw [layoutOf, List.takeWhile_append_of_pos hmem,
    List.dropWhile_append_of_pos hmem, List.append_assoc]
  rfl

theorem afterLayout_blank_append
    {gap : List Char}
    (hgap : gap.all isBlank = true) (rest : List Char) :
    afterLayout (gap ++ rest) = afterLayout rest := by
  have hmem : ∀ c ∈ gap, isBlank c = true := List.all_eq_true.1 hgap
  rw [afterLayout, List.dropWhile_append_of_pos hmem]
  rfl

theorem afterLayout_cons_of_isBlank
    {c : Char}
    (hc : isBlank c = true) (rest : List Char) :
    afterLayout (c :: rest) = afterLayout rest := by
  have hone : [c].all isBlank = true := by simp [hc]
  exact afterLayout_blank_append hone rest

theorem afterLayout_of_layoutOf
    {w : List Char}
    (h : layoutOf w = []) :
    afterLayout w = w := by
  have := layoutOf_append_afterLayout w
  rwa [h] at this

@[simp] theorem layoutOf_nil : layoutOf [] = [] := rfl

/-- A gap is all the layout there is in front of something with no layout in
front. -/
theorem layout_gap
    {gap : String} {next : List Char}
    (hgap : gap.toList.all isBlank = true) (hnext : layoutOf next = []) :
    String.ofList (layoutOf (gap.toList ++ next)) = gap ∧
    afterLayout (gap.toList ++ next) = next := by
  rw [layoutOf_blank_append hgap, hnext, List.append_nil, String.ofList_toList,
    afterLayout_blank_append hgap, afterLayout_of_layoutOf hnext]
  exact ⟨rfl, rfl⟩

/-- Where there is no blank in front, there is layout only if there is a
comment. -/
theorem layoutOf_of_not_comment
    {w : List Char}
    (hblank : starts isBlank w = false) (hcomment : comment w = []) :
    layoutOf w = [] := by
  have htake := (takeWhile_run rfl hblank : ([] ++ w).takeWhile isBlank = [] ∧ _)
  rw [List.nil_append] at htake
  rw [layoutOf, htake.1, htake.2, hcomment]
  rfl

/-- There is no layout in front of characters that are neither blanks nor minus
signs. -/
theorem layoutOf_of_starts
    {p : Char → Bool} {w : List Char}
    (hp : Apart isBlank p ∧ p '-' = false) (h : starts p w = true) :
    layoutOf w = [] := by
  refine layoutOf_of_not_comment (hp.1.symm.starts_eq_false h) ?_
  rcases comment_cases w with ⟨rest, rfl⟩ | ⟨hcomment, -⟩
  · rw [starts_cons, hp.2] at h
    cases h
  · exact hcomment

theorem starts_isBlank_afterComment
    {w : List Char}
    (h : starts isBlank w = false) :
    starts isBlank (afterComment w) = false := by
  rcases comment_cases w with ⟨rest, rfl⟩ | ⟨-, hafter⟩
  · -- the comment goes on to the end of the line, and a line end is no blank
    have hapart : Apart isBlank (fun c => isLineEnd c) := .isBlank (by decide)
    have hend := starts_dropWhile (fun c => !isLineEnd c) rest
    rw [afterComment]
    cases hw : rest.dropWhile (fun c => !isLineEnd c) with
    | nil =>
        rfl
    | cons c v =>
        rw [hw, starts_cons, Bool.not_eq_false'] at hend
        exact hapart.symm c hend
  · rw [hafter]
    exact h

theorem comment_afterComment
    (w : List Char) :
    comment (afterComment w) = [] := by
  rcases comment_cases w with ⟨rest, rfl⟩ | ⟨hcomment, hafter⟩
  · have hend := starts_dropWhile (fun c => !isLineEnd c) rest
    rw [afterComment]
    rcases comment_cases (rest.dropWhile fun c => !isLineEnd c) with ⟨v, hv⟩ |
      ⟨hcomment, -⟩
    · rw [hv] at hend
      cases hend
    · exact hcomment
  · rw [hafter]
    exact hcomment

/-- What comes after layout has no layout in front. -/
@[simp] theorem layoutOf_afterLayout
    (input : List Char) :
    layoutOf (afterLayout input) = [] := by
  refine layoutOf_of_not_comment ?_ ?_
  · exact starts_isBlank_afterComment (starts_dropWhile isBlank input)
  · exact comment_afterComment _

@[simp] theorem afterLayout_afterLayout
    (input : List Char) :
    afterLayout (afterLayout input) = afterLayout input :=
  afterLayout_of_layoutOf (layoutOf_afterLayout input)

/-- There is no layout in front of the end of a line or of the input. -/
theorem layoutOf_of_line_end
    {w : List Char}
    (hw : starts (fun c => !isLineEnd c) w = false) :
    layoutOf w = [] := by
  cases w with
  | nil =>
      rfl
  | cons c w =>
      rw [starts_cons, Bool.not_eq_false'] at hw
      exact layoutOf_of_starts (p := isLineEnd) ⟨.isBlank (by decide), by decide⟩ hw

/-- A comment up to the end of a line or of the input is layout. -/
theorem afterLayout_comment
    {body w : List Char}
    (hbody : body.all (fun c => !isLineEnd c) = true)
    (hw : starts (fun c => !isLineEnd c) w = false) :
    afterLayout ('-' :: '-' :: (body ++ w)) = w := by
  have hdrop : ('-' :: '-' :: (body ++ w)).dropWhile isBlank = '-' :: '-' ::
      (body ++ w) := rfl
  rw [afterLayout, hdrop, afterComment]
  exact (takeWhile_run hbody hw).2

/-- A comment is followed by the end of a line or of the input. -/
theorem all_isBlank_layoutOf
    {input : List Char}
    (h : starts (fun c => !isLineEnd c) (afterLayout input) = true) :
    (layoutOf input).all isBlank = true := by
  rw [layoutOf, List.all_append, List.all_takeWhile, Bool.true_and]
  unfold afterLayout at h
  rcases comment_cases (input.dropWhile isBlank) with ⟨rest, hrest⟩ | ⟨hcomment, -⟩
  · rw [hrest, afterComment, starts_dropWhile] at h
    cases h
  · rw [hcomment]
    rfl

/-- What was taken of the layout in front of an input, and what is left: nothing
was taken if `bare`, and all of it was taken otherwise. -/
structure Trail (bare : Prop) (trail rest : List Char) : Prop where
  nothing : bare → trail = []
  everything : ¬ bare → trail = layoutOf (trail ++ rest)

namespace Trail

variable {bare : Prop} {trail rest : List Char}

theorem rest_eq
    (h : Trail bare trail rest) (hbare : ¬ bare) :
    rest = afterLayout (trail ++ rest) := by
  have hsplit := layoutOf_append_afterLayout (trail ++ rest)
  rw [← h.everything hbare] at hsplit
  exact (List.append_cancel_left hsplit).symm

theorem layoutOf_append
    (h : Trail bare trail rest) :
    layoutOf (trail ++ rest) = trail ++ layoutOf rest := by
  by_cases hbare : bare
  · simp [h.nothing hbare]
  · have hrest : layoutOf rest = [] := by
      rw [h.rest_eq hbare]
      exact layoutOf_afterLayout _
    rw [hrest, List.append_nil]
    exact (h.everything hbare).symm

theorem afterLayout_append
    (h : Trail bare trail rest) :
    afterLayout (trail ++ rest) = afterLayout rest := by
  by_cases hbare : bare
  · simp [h.nothing hbare]
  · have hrest := h.rest_eq hbare
    rw [← hrest, hrest, afterLayout_afterLayout]

theorem congr
    {bare' : Prop}
    (h : Trail bare trail rest) (hiff : bare' ↔ bare) :
    Trail bare' trail rest where
  nothing := fun hbare => h.nothing (hiff.1 hbare)
  everything := fun hbare => h.everything fun hbare' => hbare (hiff.2 hbare')

/-- Taking the rest of the layout as well. -/
theorem settle
    (h : Trail bare trail rest) {bare' : Prop} (hbare : ¬ bare') :
    Trail bare' (trail ++ layoutOf rest) (afterLayout rest) where
  nothing := fun hbare' => absurd hbare' hbare
  everything := by
    intro _
    rw [List.append_assoc, layoutOf_append_afterLayout, h.layoutOf_append]

theorem exists_split
    (bare : Prop) (after : List Char) :
    ∃ trail rest, after = trail ++ rest ∧ Trail bare trail rest := by
  by_cases hbare : bare
  · exact ⟨[], after, rfl, fun _ => rfl, fun h => absurd hbare h⟩
  · refine ⟨layoutOf after, afterLayout after,
      (layoutOf_append_afterLayout after).symm, fun h => absurd h hbare, ?_⟩
    intro _
    rw [layoutOf_append_afterLayout]

/-- What is taken is settled by what is there. -/
theorem unique
    {trail' rest' : List Char}
    (h : Trail bare trail rest) (h' : Trail bare trail' rest')
    (hsame : trail ++ rest = trail' ++ rest') :
    trail = trail' ∧ rest = rest' := by
  have htrail : trail = trail' := by
    by_cases hbare : bare
    · rw [h.nothing hbare, h'.nothing hbare]
    · rw [h.everything hbare, h'.everything hbare, hsame]
  subst htrail
  exact ⟨rfl, List.append_cancel_left hsame⟩

end Trail

end Lexeme

end Curried
