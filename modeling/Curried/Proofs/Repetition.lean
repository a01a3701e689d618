import Curried.Grammar.Expression
import Curried.Proofs.LayoutLaws

/-!
# Repetition

Repetition is defined with a bound on the number of rounds.  Here it is
described without one: `Steps read input xs rest` says that `read` gives `xs`
one after the other.  A parser that takes at least one character in every round
stops only where it fails.

**Results.**
* `run_many_iff`: what `many` reads.
* `run_spaced_iff`: what `spaced` reads where no layout is in front.
* `run_listing_iff`: what is read by the pattern that all lists of the grammar
  share: one member, layout, further members with layout between them.
-/

namespace Curried

namespace Parser

variable {α : Type}

/-- `read` gives the results `xs` one after the other, and then `rest` is
left. -/
inductive Steps (read : List Char → Option (α × List Char)) :
    List Char → List α → List Char → Prop
  | done (input : List Char) :
      Steps read input [] input
  | next {input mid rest : List Char} {x : α} {xs : List α} :
      read input = some (x, mid) → Steps read mid xs rest →
      Steps read input (x :: xs) rest

/-- Every result takes at least one character. -/
def Consumes (read : List Char → Option (α × List Char)) : Prop :=
  ∀ ⦃input : List Char⦄ ⦃x : α⦄ ⦃rest : List Char⦄,
    read input = some (x, rest) → rest.length < input.length

variable {read : List Char → Option (α × List Char)}

theorem Steps.trans
    {input mid rest : List Char} {xs ys : List α}
    (hx : Steps read input xs mid) (hy : Steps read mid ys rest) :
    Steps read input (xs ++ ys) rest := by
  induction hx with
  | done => exact hy
  | next hread _ ih => exact .next hread (ih hy)

theorem Steps.length_le
    (hread : Consumes read)
    {input rest : List Char} {xs : List α}
    (h : Steps read input xs rest) :
    xs.length + rest.length ≤ input.length := by
  induction h with
  | done =>
      simp
  | next hx _ ih =>
      have := hread hx
      simp only [List.length_cons]
      omega

theorem steps_of_collect :
    ∀ {n : Nat} {input rest : List Char} {xs : List α},
      collect read n input = (xs, rest) →
      Steps read input xs rest ∧ (xs.length < n → read rest = none)
  | 0, input, rest, xs, h => by
      simp only [collect, Prod.mk.injEq] at h
      obtain ⟨rfl, rfl⟩ := h
      exact ⟨.done input, fun hlt => by simp at hlt⟩
  | n + 1, input, rest, xs, h => by
      cases hx : read input with
      | none =>
          simp only [collect, hx, Prod.mk.injEq] at h
          obtain ⟨rfl, rfl⟩ := h
          exact ⟨.done input, fun _ => hx⟩
      | some r =>
          obtain ⟨x, mid⟩ := r
          simp only [collect, hx, Prod.mk.injEq] at h
          obtain ⟨rfl, rfl⟩ := h
          obtain ⟨hsteps, hstop⟩ := steps_of_collect (Eq.refl (collect read n mid))
          refine ⟨.next hx hsteps, fun hlt => hstop ?_⟩
          simp only [List.length_cons] at hlt
          omega

theorem collect_of_steps
    {input rest : List Char} {xs : List α}
    (h : Steps read input xs rest) (hstop : read rest = none) :
    ∀ {n : Nat}, xs.length < n → collect read n input = (xs, rest) := by
  induction h with
  | done =>
      intro n hn
      obtain ⟨k, rfl⟩ : ∃ k, n = k + 1 := ⟨n - 1, by omega⟩
      simp [collect, hstop]
  | next hx _ ih =>
      intro n hn
      obtain ⟨k, rfl⟩ : ∃ k, n = k + 1 := ⟨n - 1, by omega⟩
      simp only [List.length_cons] at hn
      simp [collect, hx, ih hstop (by omega : _ < k)]

/-- A parser that always takes something is repeated exactly until it fails. -/
theorem run_many_iff
    {p : Parser α} (hp : Consumes p.run)
    {input rest : List Char} {xs : List α} :
    (many p).run input = some (xs, rest) ↔ Steps p.run input xs rest ∧
    p.run rest = none := by
  constructor
  · intro h
    obtain ⟨hsteps, hstop⟩ := steps_of_collect (Option.some.inj h)
    have := hsteps.length_le hp
    exact ⟨hsteps, hstop (by omega)⟩
  · rintro ⟨hsteps, hstop⟩
    have := hsteps.length_le hp
    exact congrArg some (collect_of_steps hsteps hstop (by omega))

end Parser

namespace Grammar

open Lexeme Curried.Parser

variable {α β γ : Type}

/-- Layout, and then what `read` reads. -/
def gapped
    (read : List Char → Option (α × List Char)) (input : List Char) :
    Option ((String × α) × List Char) :=
  (read (afterLayout input)).map fun r =>
    ((String.ofList (layoutOf input), r.1), r.2)

theorem gapped_eq_some_iff
    {read : List Char → Option (α × List Char)} {input rest : List Char}
    {lead : String} {x : α} :
    gapped read input = some ((lead, x), rest) ↔
      lead = String.ofList (layoutOf input) ∧
      read (afterLayout input) = some (x, rest) := by
  unfold gapped
  rw [Option.map_eq_some_iff]
  constructor
  · rintro ⟨⟨x', rest'⟩, hread, h⟩
    simp only [Prod.mk.injEq] at h
    obtain ⟨⟨rfl, rfl⟩, rfl⟩ := h
    exact ⟨rfl, hread⟩
  · rintro ⟨rfl, hread⟩
    exact ⟨(x, rest), hread, rfl⟩

theorem gapped_eq_none_iff
    {read : List Char → Option (α × List Char)} {input : List Char} :
    gapped read input = none ↔ read (afterLayout input) = none := by
  simp [gapped]

theorem consumes_gapped
    {read : List Char → Option (α × List Char)}
    (h : Consumes read) :
    Consumes (gapped read) := by
  rintro input ⟨lead, x⟩ rest hx
  have hlt := h (gapped_eq_some_iff.1 hx).2
  have hlength := congrArg List.length (layoutOf_append_afterLayout input)
  rw [List.length_append] at hlength
  omega

/-- The parser that `spaced` repeats. -/
def withGap (p : Parser α) : Parser (String × α) := do
  let gap ← layout
  let x ← p
  pure (gap, x)

theorem run_withGap
    (p : Parser α) :
    (withGap p).run = gapped p.run := by
  funext input
  simp only [withGap, run_bind, run_layout, Option.bind_some, gapped, run_pure]
  cases p.run (afterLayout input) <;> rfl

theorem run_spaced
    (p : Parser α) (input : List Char) :
    (spaced p).run input =
      match p.run input with
      | none => some ([], input)
      | some (x, mid) =>
          ((many (withGap p)).run mid).map fun r => (("", x) :: r.1, r.2) := by
  rw [spaced, orElsePure, run_orTry]
  change ((p.run input).bind fun r =>
    ((many (withGap p)).run r.2).bind fun r' =>
      some (("", r.1) :: r'.1, r'.2)).or (some ([], input)) = _
  cases p.run input with
  | none => rfl
  | some r => rfl

/-- What is read by repetition with layout in between, where no layout is in
front. -/
theorem run_spaced_iff
    {p : Parser α} (hp : Consumes p.run)
    {input rest : List Char} {xs : List (String × α)}
    (hinput : layoutOf input = []) :
    (spaced p).run input = some (xs, rest) ↔
      Steps (gapped p.run) input xs rest ∧ gapped p.run rest = none := by
  have hafter := afterLayout_of_layoutOf hinput
  rw [run_spaced]
  cases hfirst : p.run input with
  | none =>
      have hstop : gapped p.run input = none := by
        rw [gapped_eq_none_iff, hafter]
        exact hfirst
      constructor
      · intro h
        simp only [Option.some.injEq, Prod.mk.injEq] at h
        obtain ⟨rfl, rfl⟩ := h
        exact ⟨.done input, hstop⟩
      · rintro ⟨hsteps, -⟩
        cases hsteps with
        | done => rfl
        | next hx _ => rw [hstop] at hx; cases hx
  | some r =>
      obtain ⟨x, mid⟩ := r
      have hgapped : Consumes (withGap p).run := by
        rw [run_withGap]
        exact consumes_gapped hp
      have hstep : gapped p.run input = some (("", x), mid) := by
        rw [gapped_eq_some_iff, hafter, hinput]
        exact ⟨rfl, hfirst⟩
      simp only [Option.map_eq_some_iff, Prod.exists, Prod.mk.injEq]
      constructor
      · rintro ⟨ys, rest', hmany, rfl, rfl⟩
        rw [run_many_iff hgapped, run_withGap] at hmany
        exact ⟨.next hstep hmany.1, hmany.2⟩
      · rintro ⟨hsteps, hstop⟩
        cases hsteps with
        | done =>
            rw [hstep] at hstop
            cases hstop
        | next hx hsteps =>
            rw [hstep] at hx
            simp only [Option.some.injEq, Prod.mk.injEq] at hx
            obtain ⟨rfl, rfl⟩ := hx
            refine ⟨_, rest, ?_, rfl, rfl⟩
            rw [run_many_iff hgapped, run_withGap]
            exact ⟨hsteps, hstop⟩

/-- What a list gives whose first member `x` was read up to `mid`, with the
further members `ys` up to `next`.  The layout before the second member is taken
right after the first one, also if there is no second member. -/
def Listed
    (f : α → String → List (String × β) → γ) (x : α) (mid : List Char)
    (ys : List (String × β)) (next : List Char) : γ × List Char :=
  match ys with
  | [] => (f x (String.ofList (layoutOf mid)) [], afterLayout mid)
  | (lead, y) :: ys => (f x lead (("", y) :: ys), next)

/-- One member, layout, further members with layout between them. -/
theorem run_listing_iff
    {p : Parser α} {q : Parser β} (hq : Consumes q.run)
    {f : α → String → List (String × β) → γ}
    {input rest : List Char} {z : γ} :
    (do
      let x ← p
      let gap ← layout
      let ys ← spaced q
      pure (f x gap ys) : Parser γ).run input = some (z, rest) ↔
    ∃ x mid ys next,
      p.run input = some (x, mid) ∧
      Steps (gapped q.run) mid ys next ∧
      gapped q.run next = none ∧
      (z, rest) = Listed f x mid ys next := by
  have hidem : ∀ mid, gapped q.run (afterLayout mid) = none ↔
      gapped q.run mid = none := by
    intro mid
    rw [gapped_eq_none_iff, gapped_eq_none_iff, afterLayout_afterLayout]
  have hrun : (do
      let x ← p
      let gap ← layout
      let ys ← spaced q
      pure (f x gap ys) : Parser γ).run input =
      (p.run input).bind fun r =>
        ((spaced q).run (afterLayout r.2)).map fun r' =>
          (f r.1 (String.ofList (layoutOf r.2)) r'.1, r'.2) := by
    simp only [run_bind, run_layout, Option.bind_some, run_pure]
    cases p.run input with
    | none => rfl
    | some r =>
        simp only [Option.bind_some]
        cases (spaced q).run (afterLayout r.2) <;> rfl
  rw [hrun]
  simp only [Option.bind_eq_some_iff, Option.map_eq_some_iff, Prod.exists]
  constructor
  · rintro ⟨x, mid, hx, ys, next, hys, h⟩
    rw [run_spaced_iff hq (layoutOf_afterLayout mid)] at hys
    obtain ⟨hsteps, hstop⟩ := hys
    cases hsteps with
    | done =>
        exact ⟨x, mid, [], mid, hx, .done mid, (hidem mid).1 hstop, h.symm⟩
    | @next _ mid' _ y ys hy hsteps =>
        obtain ⟨lead, y⟩ := y
        rw [gapped_eq_some_iff, layoutOf_afterLayout, afterLayout_afterLayout] at hy
        obtain ⟨rfl, hy⟩ := hy
        refine ⟨x, mid, (String.ofList (layoutOf mid), y) :: ys, next, hx, ?_,
          hstop, h.symm⟩
        exact .next (gapped_eq_some_iff.2 ⟨rfl, hy⟩) hsteps
  · rintro ⟨x, mid, ys, next, hx, hsteps, hstop, h⟩
    cases hsteps with
    | done =>
        refine ⟨x, mid, hx, [], afterLayout mid, ?_, h.symm⟩
        rw [run_spaced_iff hq (layoutOf_afterLayout mid)]
        exact ⟨.done _, (hidem mid).2 hstop⟩
    | @next _ mid' _ y ys hy hsteps =>
        obtain ⟨lead, y⟩ := y
        obtain ⟨rfl, hy'⟩ := gapped_eq_some_iff.1 hy
        refine ⟨x, mid, hx, ("", y) :: ys, next, ?_, h.symm⟩
        rw [run_spaced_iff hq (layoutOf_afterLayout mid)]
        refine ⟨.next ?_ hsteps, hstop⟩
        rw [gapped_eq_some_iff, layoutOf_afterLayout, afterLayout_afterLayout]
        exact ⟨rfl, hy'⟩

end Grammar

end Curried
