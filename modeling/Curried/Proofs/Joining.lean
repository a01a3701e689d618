import Curried.Proofs.ProgramReader

/-!
# Programs one below the other

Two programs with a line break between them are one program, and its
declarations are those of the first and then those of the second.

**Line breaks.**  No name, number, operator, layout or comment goes on over a
line break.  So whatever stands at the front of an input still stands there,
with the same trees and texts, if a line break and anything else is put behind
the input.

**Result.**  `Grammar.Program.join`.
-/

namespace Curried

namespace Lexeme

theorem starts_line
    {p : Char → Bool} {w : List Char}
    (hp : p '\n' = false) (hw : starts p w = false) (z : List Char) :
    starts p (w ++ '\n' :: z) = false := by
  cases w with
  | nil => exact hp
  | cons c w => exact hw

/-- A run of characters that a line break is not among ends at the line break at
the latest. -/
theorem takeWhile_line
    {p : Char → Bool}
    (hp : p '\n' = false) (w z : List Char) :
    (w ++ '\n' :: z).takeWhile p = w.takeWhile p ∧
    (w ++ '\n' :: z).dropWhile p = w.dropWhile p ++ '\n' :: z := by
  induction w with
  | nil => simp [hp]
  | cons c w ih =>
      by_cases hc : p c
      · simpa [hc] using ih
      · simp [hc]

theorem comment_line (w z : List Char) : comment (w ++ '\n' :: z) = comment w := by
  have hbody : ∀ rest : List Char,
      (rest ++ '\n' :: z).takeWhile (fun c => !isLineEnd c) =
        rest.takeWhile (fun c => !isLineEnd c) :=
    fun rest => (takeWhile_line (by decide) rest z).1
  rcases comment_cases (w ++ '\n' :: z) with ⟨rest, hrest⟩ | ⟨hcomment, -⟩
  · -- the two minus signs stand before the line break
    rcases w with _ | ⟨c, _ | ⟨d, w⟩⟩
    · simp at hrest
    · simp at hrest
    · simp only [List.cons_append, List.cons.injEq] at hrest
      obtain ⟨rfl, rfl, -⟩ := hrest
      simp only [List.cons_append, comment, hbody]
  · rcases comment_cases w with ⟨rest, rfl⟩ | ⟨hcomment', -⟩
    · cases hcomment
    · rw [hcomment, hcomment']

/-- A line break is no layout. -/
theorem layoutOf_line
    (w z : List Char) :
    layoutOf (w ++ '\n' :: z) = layoutOf w := by
  obtain ⟨htake, hdrop⟩ := takeWhile_line (p := isBlank) (by decide) w z
  rw [layoutOf, layoutOf, htake, hdrop, comment_line]

theorem Trail.line
    {bare : Prop} {trail rest : List Char}
    (h : Trail bare trail rest) (z : List Char) :
    Trail bare trail (rest ++ '\n' :: z) where
  nothing := h.nothing
  everything := by
    intro hbare
    rw [← List.append_assoc, layoutOf_line]
    exact h.everything hbare

end Lexeme

namespace Grammar

open Lexeme

variable {input rest : List Char} (z : List Char)

theorem Reading.line
    {l : Level} {bare : Tree → Prop} {p : Phrase}
    (h : Reading l bare input p rest) :
    Reading l bare (input ++ '\n' :: z) p (rest ++ '\n' :: z) where
  derives := h.derives
  input_eq := by
    rw [h.input_eq]
    simp only [List.append_assoc]
  trail := h.trail.line z
  stops := by
    have hline : goesOn p.tree '\n' = false :=
      Bool.eq_false_iff.2 fun hgoes =>
        absurd (isNamePart_of_goesOn hgoes) (by decide)
    rw [← List.append_assoc]
    exact starts_line hline h.stops z

theorem Equates.line
    {m : Tree}
    (h : Equates input m rest) :
    Equates (input ++ '\n' :: z) m (rest ++ '\n' :: z) := by
  obtain ⟨hgap, hp⟩ := h
  simp only [List.cons_append, List.append_assoc]
  exact .intro hgap (hp.line z)

theorem Parameters.line
    {text : String} {names : List String}
    (h : Parameters input text names rest) :
    Parameters (input ++ '\n' :: z) text names (rest ++ '\n' :: z) := by
  induction h with
  | one hw hafter =>
      rw [List.append_assoc]
      exact .one hw (starts_line (by decide) hafter z)
  | more hw hgap hnext _ ih =>
      simp only [List.append_assoc]
      refine .more hw hgap ?_ ih
      rw [← List.append_assoc]
      exact starts_line (by decide) hnext z

theorem Binds.line
    {t : Tree}
    (h : Binds input t rest) :
    Binds (input ++ '\n' :: z) t (rest ++ '\n' :: z) := by
  obtain ⟨hname, hgap, hm⟩ := h
  simp only [List.append_assoc]
  exact .intro hname hgap (hm.line z)

theorem Defines.line
    {t : Tree}
    (h : Defines input t rest) :
    Defines (input ++ '\n' :: z) t (rest ++ '\n' :: z) := by
  obtain ⟨hname, hgap, hnext, hparameters, hgap', hm⟩ := h
  have hparameters' := hparameters.line z
  rw [List.append_assoc] at hparameters'
  simp only [List.append_assoc]
  refine .intro hname hgap ?_ hparameters' hgap' (hm.line z)
  rw [← List.append_assoc]
  exact starts_line (by decide) hnext z

theorem Declares.line
    {t : Tree}
    (h : Declares input t rest) :
    Declares (input ++ '\n' :: z) t (rest ++ '\n' :: z) := by
  cases h with
  | function h => exact .function (h.line z)
  | bind h => exact .bind (h.line z)
  | splice h => exact .splice (h.line z)

theorem Fills.line
    {n : Nat}
    (h : Fills n input rest) :
    Fills n (input ++ '\n' :: z) (rest ++ '\n' :: z) := by
  induction h with
  | done rest => exact .done _
  | blank hc _ ih => exact .blank hc ih
  | separator hc _ ih => exact .separator hc ih
  | comment hbody hw _ ih =>
      simp only [List.cons_append, List.append_assoc]
      exact .comment hbody (starts_line (by decide) hw z) ih

variable {z} {n : Nat} {ts us : List Tree}

/-- Fillers up to a line break and those behind it. -/
theorem Fills.across
    {k : Nat} {next : List Char}
    (h : Fills n input []) (hz : Fills k z next) :
    Fills (n + k + 1) (input ++ '\n' :: z) next :=
  (h.line z).trans (.separator rfl hz)

theorem Body.join
    (h : Body input ts) (hz : Program z us) :
    Body (input ++ '\n' :: z) (ts ++ us) := by
  induction h with
  | last ht hfills =>
      cases hz with
      | empty hz => exact .last (ht.line z) (hfills.across hz)
      | body hz hbody => exact .more (ht.line z) (hfills.across hz) hbody
  | more ht hfills _ ih => exact .more (ht.line z) (hfills.line z) ih

/-- Two programs with a line break between them are a program. -/
theorem Program.join
    (h : Program input ts) (hz : Program z us) :
    Program (input ++ '\n' :: z) (ts ++ us) := by
  cases h with
  | empty hfills =>
      cases hz with
      | empty hz => exact .empty (hfills.across hz)
      | body hz hbody => exact .body (hfills.across hz) hbody
  | body hfills hbody => exact .body (hfills.line z) (hbody.join hz)

end Grammar

end Curried
