import Curried.Grammar.Lexeme
import Mathlib.Data.List.TakeWhile

/-!
# Words and their readers

Which words the readers of lexemes take, said without the readers.

**Classes.**  `isInteger`, `isName`, `isText` and `isOperatorWord` tell whether
a word is a lexeme of a class.

**Readers.**  `Takes read class more` says that `read` takes a word off the
front of its input exactly if the word is of the class and what follows it does
not go on with it.  Each reader has one theorem of this form.
-/

namespace Curried

namespace Lexeme

/-- The word starts with a character of the given sort. -/
def starts (p : Char → Bool) (w : List Char) : Bool :=
  w.head?.any p

@[simp] theorem starts_nil (p : Char → Bool) : starts p [] = false := rfl

@[simp] theorem starts_cons
    (p : Char → Bool) (c : Char) (w : List Char) :
    starts p (c :: w) = p c := by
  rfl

theorem starts_append
    {p : Char → Bool} {w : List Char}
    (hw : w ≠ []) (v : List Char) :
    starts p (w ++ v) = starts p w := by
  cases w with
  | nil => exact absurd rfl hw
  | cons c w => rfl

theorem exists_cons_of_starts
    {p : Char → Bool} {w : List Char}
    (h : starts p w = true) :
    ∃ c rest, w = c :: rest ∧ p c = true := by
  cases w with
  | nil => cases h
  | cons c rest => exact ⟨c, rest, rfl, h⟩

theorem starts_append_of_starts
    {p : Char → Bool} {w : List Char}
    (h : starts p w = true) (v : List Char) :
    starts p (w ++ v) = true := by
  obtain ⟨c, rest, rfl, hc⟩ := exists_cons_of_starts h
  exact hc

theorem starts_dropWhile
    (p : Char → Bool) (w : List Char) :
    starts p (w.dropWhile p) = false := by
  induction w with
  | nil =>
      rfl
  | cons c w ih =>
      by_cases hc : p c
      · simpa [hc] using ih
      · simp [hc]

/-- A run of characters of one sort, up to one of another sort, is what
`takeWhile` takes. -/
theorem takeWhile_run
    {p : Char → Bool} {w rest : List Char}
    (hw : w.all p = true) (hrest : starts p rest = false) :
    (w ++ rest).takeWhile p = w ∧ (w ++ rest).dropWhile p = rest := by
  have hmem : ∀ c ∈ w, p c = true := List.all_eq_true.1 hw
  have htake : rest.takeWhile p = [] := by
    cases rest with
    | nil => rfl
    | cons c rest => simpa using hrest
  have hdrop : rest.dropWhile p = rest := by
    cases rest with
    | nil => rfl
    | cons c rest =>
        have hc : p c = false := by simpa using hrest
        simp [hc]
  rw [List.takeWhile_append_of_pos hmem, List.dropWhile_append_of_pos hmem,
    htake, hdrop]
  simp

/-- No character is of both sorts. -/
def Apart (p q : Char → Bool) : Prop :=
  ∀ c, p c = true → q c = false

namespace Apart

variable {p q : Char → Bool}

theorem symm
    (h : Apart p q) :
    Apart q p := by
  intro c hq
  cases hp : p c with
  | false => rfl
  | true => rw [h c hp] at hq; cases hq

theorem starts_eq_false
    (h : Apart p q) {w : List Char} (hw : starts p w = true) :
    starts q w = false := by
  obtain ⟨c, rest, rfl, hc⟩ := exists_cons_of_starts hw
  exact h c hc

/-- A run of another sort can stand in front. -/
theorem starts_append
    (h : Apart p q) {v w : List Char} (hv : v.all p = true)
    (hw : starts q w = false) :
    starts q (v ++ w) = false := by
  cases v with
  | nil =>
      exact hw
  | cons c v =>
      simp only [List.all_cons, Bool.and_eq_true] at hv
      exact h c hv.1

theorem single
    {c : Char} (h : q c = false) :
    Apart (· == c) q := by
  intro d hd
  rw [beq_iff_eq.1 hd]
  exact h

theorem isBlank
    (h : q ' ' = false ∧ q '\t' = false) :
    Apart isBlank q := by
  intro c hc
  simp only [Lexeme.isBlank, Bool.or_eq_true, beq_iff_eq] at hc
  rcases hc with rfl | rfl
  · exact h.1
  · exact h.2

theorem isLineEnd
    (h : q '\n' = false ∧ q '\r' = false) :
    Apart isLineEnd q := by
  intro c hc
  simp only [Lexeme.isLineEnd, Bool.or_eq_true, beq_iff_eq] at hc
  rcases hc with rfl | rfl
  · exact h.1
  · exact h.2

theorem isOperatorChar
    (h : ['!', '#', '%', '&', '*', '+', '.', '/', '<', '=', '>', '?', '@', '\\',
      '^', '|', '-', '~', ':', '$'].all (fun c => !q c) = true) :
    Apart isOperatorChar q := by
  intro c hc
  have hq := List.all_eq_true.1 h c (List.contains_iff_mem.1 hc)
  rwa [Bool.not_eq_true'] at hq

theorem isBlank_isNamePart : Apart Lexeme.isBlank isNamePart :=
  isBlank (by decide)

theorem isNameStart_isDigit : Apart isNameStart Char.isDigit := by
  intro c hc
  change ((decide ('A'.val ≤ c.val ∧ c.val ≤ 'Z'.val) ||
    ('a'.val ≤ c.val && c.val ≤ 'z'.val)) || c == '_') = true at hc
  simp only [Bool.or_eq_true, Bool.and_eq_true, decide_eq_true_eq, beq_iff_eq] at hc
  rcases hc with hc | rfl
  · simp only [Char.isDigit, Bool.and_eq_false_iff, decide_eq_false_iff_not,
      UInt32.not_le]
    right
    rcases hc with hc | hc
    · exact UInt32.lt_of_lt_of_le (by decide) hc.1
    · exact UInt32.lt_of_lt_of_le (by decide) hc.1
  · decide

end Apart

/-- `read` takes a word exactly if it is of the class and what follows is not
counted as more of it. -/
def Takes
    (read : List Char → Option (String × List Char))
    (isWord more : List Char → Bool) : Prop :=
  ∀ (input : List Char) (s : String) (rest : List Char),
    read input = some (s, rest) ↔
      input = s.toList ++ rest ∧ isWord s.toList = true ∧ more rest = false

namespace Takes

variable {read : List Char → Option (String × List Char)}
  {isWord more : List Char → Bool}

theorem run
    (h : Takes read isWord more)
    {s : String} {rest : List Char}
    (hs : isWord s.toList = true) (hrest : more rest = false) :
    read (s.toList ++ rest) = some (s, rest) :=
  (h _ s rest).2 ⟨rfl, hs, hrest⟩

/-- A reader whose words all start with characters of one sort fails where there
is no such character. -/
theorem eq_none
    (h : Takes read isWord more)
    {p : Char → Bool} (hp : ∀ w, isWord w = true → starts p w = true)
    {input : List Char} (hinput : starts p input = false) :
    read input = none := by
  cases hr : read input with
  | none =>
      rfl
  | some r =>
      obtain ⟨s, rest⟩ := r
      obtain ⟨rfl, hs, -⟩ := (h _ _ _).1 hr
      have hstart := hp _ hs
      have hne : s.toList ≠ [] := by
        intro hnil
        rw [hnil] at hstart
        cases hstart
      rw [starts_append hne, hstart] at hinput
      cases hinput

end Takes

/-- A non-empty run of ASCII digits. -/
def isInteger (w : List Char) : Bool :=
  !w.isEmpty && w.all Char.isDigit

/-- A letter or underscore with name characters after it. -/
def isName : List Char → Bool
  | [] => false
  | c :: rest => isNameStart c && rest.all isNamePart

/-- Reading from the left, with each backslash taking the next character with
it, there is no quote, and no backslash is left over at the end. -/
def isEscaped : List Char → Bool
  | [] => true
  | '\\' :: _ :: rest => isEscaped rest
  | c :: rest => c != '"' && c != '\\' && isEscaped rest

theorem isEscaped_append
    {v : List Char}
    (hv : isEscaped v = true) (w : List Char) :
    isEscaped (v ++ w) = isEscaped w := by
  fun_induction isEscaped v with
  | case1 => rfl
  | case2 c v ih =>
      rw [List.cons_append, List.cons_append, isEscaped]
      exact ih hv
  | case3 c v hno ih =>
      simp only [Bool.and_eq_true, bne_iff_ne, ne_eq] at hv
      obtain ⟨⟨hquote, hslash⟩, hv⟩ := hv
      rw [List.cons_append, isEscaped]
      · simp [hquote, hslash, ih hv]
      · intro c' rest hc _
        exact hslash hc

/-- Text between quotes in which every quote is escaped. -/
def isText : List Char → Bool
  | '"' :: rest =>
      match rest.reverse with
      | '"' :: body => isEscaped body.reverse
      | _ => false
  | _ => false

theorem isText_iff
    {w : List Char} :
    isText w = true ↔ ∃ body, w = '"' :: body ++ ['"'] ∧ isEscaped body = true := by
  constructor
  · intro h
    unfold isText at h
    split at h
    · rename_i rest
      split at h
      · rename_i body hbody
        refine ⟨body.reverse, ?_, h⟩
        have := congrArg List.reverse hbody
        simp only [List.reverse_reverse, List.reverse_cons] at this
        simp [this]
      · cases h
    · cases h
  · rintro ⟨body, rfl, h⟩
    simp [isText, h]

/-- A non-empty run of operator characters that `accept` admits. -/
def isOperatorWord (accept : List Char → Bool) (w : List Char) : Bool :=
  w.all isOperatorChar && accept w

theorem starts_of_isInteger
    (w : List Char)
    (h : isInteger w = true) :
    starts Char.isDigit w = true := by
  cases w with
  | nil => cases h
  | cons c w =>
      simp only [isInteger, List.all_cons, Bool.and_eq_true] at h
      exact h.2.1

theorem starts_of_isName
    (w : List Char)
    (h : isName w = true) :
    starts isNameStart w = true := by
  cases w with
  | nil => cases h
  | cons c w =>
      simp only [isName, Bool.and_eq_true] at h
      exact h.1

theorem starts_of_isText
    (w : List Char)
    (h : isText w = true) :
    starts (· == '"') w = true := by
  obtain ⟨body, rfl, -⟩ := isText_iff.1 h
  rfl

theorem takes_run
    (p : Char → Bool) :
    Takes (takeRun p) (fun w => !w.isEmpty && w.all p) (starts p) := by
  intro input s rest
  constructor
  · intro h
    unfold takeRun at h
    split at h
    · cases h
    · rename_i run hne
      simp only [Option.some.injEq, Prod.mk.injEq] at h
      obtain ⟨rfl, rfl⟩ := h
      refine ⟨by simp, ?_, starts_dropWhile p input⟩
      have hempty : (input.takeWhile p).isEmpty = false := by
        cases hw : input.takeWhile p with
        | nil => exact absurd hw hne
        | cons => rfl
      simp [hempty]
  · rintro ⟨rfl, hs, hrest⟩
    simp only [Bool.and_eq_true, Bool.not_eq_true'] at hs
    obtain ⟨htake, hdrop⟩ := takeWhile_run hs.2 hrest
    unfold takeRun
    rw [htake, hdrop]
    cases hw : s.toList with
    | nil =>
        rw [hw] at hs
        cases hs.1
    | cons c w =>
        simp only
        rw [← hw, String.ofList_toList]

theorem takes_integer : Takes integer.run isInteger (starts Char.isDigit) :=
  takes_run Char.isDigit

theorem takes_name : Takes name.run isName (starts isNamePart) := by
  intro input s rest
  change takeName input = some (s, rest) ↔ _
  constructor
  · intro h
    unfold takeName at h
    split at h
    · cases h
    · rename_i c w
      split at h
      · rename_i hc
        simp only [Option.some.injEq, Prod.mk.injEq] at h
        obtain ⟨rfl, rfl⟩ := h
        refine ⟨by simp, ?_, starts_dropWhile isNamePart w⟩
        simp [isName, hc]
      · cases h
  · rintro ⟨rfl, hs, hrest⟩
    cases hw : s.toList with
    | nil =>
        rw [hw] at hs
        cases hs
    | cons c w =>
        rw [hw] at hs
        simp only [isName, Bool.and_eq_true] at hs
        obtain ⟨htake, hdrop⟩ := takeWhile_run hs.2 hrest
        simp only [takeName, List.cons_append, hs.1, if_true, htake, hdrop]
        rw [← hw, String.ofList_toList]

/-- The inside of a quoted text ends at the first quote that is not escaped. -/
theorem textBody_append
    {body : List Char}
    (h : isEscaped body = true) (rest : List Char) :
    textBody (body ++ '"' :: rest) = (body, '"' :: rest) := by
  fun_induction isEscaped body with
  | case1 =>
      rfl
  | case2 c body ih =>
      simp [textBody, ih h]
  | case3 c body hno ih =>
      simp only [Bool.and_eq_true, bne_iff_ne, ne_eq] at h
      obtain ⟨⟨hquote, hslash⟩, hbody⟩ := h
      rw [List.cons_append, textBody]
      · simp [hquote, ih hbody]
      · intro c' rest' hc _
        exact hslash hc

theorem textBody_eq
    {input body rest : List Char}
    (h : textBody input = (body, '"' :: rest)) :
    input = body ++ '"' :: rest ∧ isEscaped body = true := by
  fun_induction textBody input generalizing body with
  | case1 =>
      simp at h
  | case2 c input body' rest' hinput ih =>
      simp only [Prod.mk.injEq] at h
      obtain ⟨rfl, rfl⟩ := h
      obtain ⟨hin, hescaped⟩ := ih hinput
      refine ⟨by rw [hin]; rfl, ?_⟩
      rw [isEscaped]
      exact hescaped
  | case3 input hno =>
      simp only [Prod.mk.injEq, List.cons.injEq] at h
      obtain ⟨rfl, -, rfl⟩ := h
      exact ⟨rfl, rfl⟩
  | case4 c input hno hc body' rest' hinput ih =>
      simp only [Prod.mk.injEq] at h
      obtain ⟨rfl, rfl⟩ := h
      obtain ⟨hin, hescaped⟩ := ih hinput
      refine ⟨by rw [hin]; rfl, ?_⟩
      -- a backslash here would have taken the next character with it
      have hslash : c ≠ '\\' := by
        rintro rfl
        cases input with
        | nil => simp at hin
        | cons d input => exact hno d input rfl rfl
      rw [isEscaped]
      · simp [hc, hslash, hescaped]
      · intro d rest'' hd _
        exact hslash hd

theorem takes_text : Takes text.run isText (fun _ => false) := by
  intro input s rest
  change takeText input = some (s, rest) ↔ _
  rw [isText_iff]
  constructor
  · intro h
    unfold takeText at h
    split at h
    · rename_i w
      split at h
      · rename_i body rest' hbody
        simp only [Option.some.injEq, Prod.mk.injEq] at h
        obtain ⟨rfl, rfl⟩ := h
        obtain ⟨rfl, hescaped⟩ := textBody_eq hbody
        exact ⟨by simp, ⟨body, by simp, hescaped⟩, rfl⟩
      · cases h
    · cases h
  · rintro ⟨rfl, ⟨body, hs, hescaped⟩, -⟩
    have hbody := textBody_append hescaped rest
    rw [hs]
    simp only [takeText, List.cons_append, List.append_assoc, List.nil_append, hbody]
    rw [← List.cons_append, ← hs, String.ofList_toList]

theorem takes_operator
    (accept : List Char → Bool) :
    Takes (takeOperator accept) (isOperatorWord accept)
      (starts isOperatorChar) := by
  intro input s rest
  constructor
  · intro h
    unfold takeOperator at h
    simp only at h
    split at h
    · rename_i haccept
      simp only [Option.some.injEq, Prod.mk.injEq] at h
      obtain ⟨rfl, rfl⟩ := h
      refine ⟨by simp, ?_, starts_dropWhile isOperatorChar input⟩
      simp [isOperatorWord, haccept]
    · cases h
  · rintro ⟨rfl, hs, hrest⟩
    simp only [isOperatorWord, Bool.and_eq_true] at hs
    obtain ⟨htake, hdrop⟩ := takeWhile_run hs.1 hrest
    simp only [takeOperator, htake, hdrop, hs.2, if_true, String.ofList_toList]

theorem takeChar_eq_some_iff
    {c : Char} {input rest : List Char} {s : String} :
    takeChar c input = some (s, rest) ↔ s = String.ofList [c] ∧
    input = c :: rest := by
  cases input with
  | nil =>
      simp [takeChar]
  | cons d input =>
      by_cases hd : d = c
      · simp [takeChar, hd, eq_comm]
      · simp [takeChar, hd]

end Lexeme

end Curried
