import Curried.Grammar.Rule

/-!
# Parsers that remember where they failed

A parser here has two halves.

**Reading.**  `run` takes the characters that are left and gives a result with
the characters after it, or nothing.  This half alone decides what is accepted
and what is built.

**Noting.**  `note` follows the same attempts and keeps the rules that failed
furthest into the input, for the message of a syntax error.  It is asked only
when reading has failed, and nothing that is read depends on it.

Choice is ordered, and repetition takes as much as it can and never gives back.
-/

namespace Curried

/-- The rules that failed at the furthest point so far; the point is given by
the number of characters left there. -/
structure Attempts where
  left : Nat
  rules : List Rule
deriving DecidableEq

namespace Attempts

/-- Nothing has been attempted on an input of the given length. -/
def start (length : Nat) : Attempts :=
  ⟨length, []⟩

/-- The number of rules that are noted at the point with `left` characters
left. -/
def countAt (a : Attempts) (left : Nat) : Nat :=
  if a.left = left then a.rules.length else 0

/-- Notes the failure of rule `r` at the point with `left` characters left,
where `earlier` rules were noted before it was tried.  A rule whose parts noted
exactly one more rule at this point stays behind that one; otherwise it takes
the place of what its parts noted here.  Failures before the furthest point are
dropped. -/
def fail (a : Attempts) (r : Rule) (left earlier : Nat) : Attempts :=
  if a.countAt left = earlier + 1 then
    a
  else if left < a.left then
    ⟨left, [r]⟩
  else if a.left = left then
    ⟨left, a.rules.take earlier ++ [r]⟩
  else
    a

end Attempts

/-- A parser: how it reads, and what it notes about failures on the way. -/
structure Parser (α : Type) where
  run : List Char → Option (α × List Char)
  note : List Char → Attempts → Attempts

namespace Parser

variable {α β : Type}

/-- Reads nothing and gives `x`. -/
def succeed (x : α) : Parser α where
  run := fun input => some (x, input)
  note := fun _ attempts => attempts

/-- Accepts nothing. -/
def reject : Parser α where
  run := fun _ => none
  note := fun _ attempts => attempts

/-- Reads with `p`, then with the parser that `f` chooses from its result. -/
def andThen (p : Parser α) (f : α → Parser β) : Parser β where
  run := fun input => (p.run input).bind fun (x, rest) => (f x).run rest
  note := fun input attempts =>
    match p.run input with
    | none => p.note input attempts
    | some (x, rest) => (f x).note rest (p.note input attempts)

instance : Monad Parser where
  pure := succeed
  bind := andThen

/-- Reads with `p`, or with `q` where `p` fails. -/
def orTry (p q : Parser α) : Parser α where
  run := fun input =>
    match p.run input with
    | some r => some r
    | none => q.run input
  note := fun input attempts =>
    match p.run input with
    | some _ => p.note input attempts
    | none => q.note input (p.note input attempts)

/-- Reads with `p` where it succeeds, and gives `x` without reading where it
fails. -/
def orElsePure (p : Parser α) (x : α) : Parser α :=
  p.orTry (succeed x)

/-- Reads with `read` again and again, at most `n` times, until it fails. -/
def collect (read : List Char → Option (α × List Char)) :
    Nat → List Char → List α × List Char
  | 0, input => ([], input)
  | n + 1, input =>
      match read input with
      | none => ([], input)
      | some (x, rest) =>
          let (xs, rest') := collect read n rest
          (x :: xs, rest')

/-- What the repetitions of `p` note, the failing one at the end included. -/
def collectNotes (p : Parser α) : Nat → List Char → Attempts → Attempts
  | 0, _, attempts => attempts
  | n + 1, input, attempts =>
      match p.run input with
      | none => p.note input attempts
      | some (_, rest) => collectNotes p n rest (p.note input attempts)

/-- Reads with `p` as often as it succeeds.  A parser that takes at least one
character each time has failed before the bound is reached. -/
def many (p : Parser α) : Parser (List α) where
  run := fun input => some (collect p.run (input.length + 1) input)
  note := fun input attempts => collectNotes p (input.length + 1) input attempts

/-- A piece of text recognised as a whole: its parts note nothing. -/
def lexeme (read : List Char → Option (α × List Char)) : Parser α where
  run := read
  note := fun _ attempts => attempts

/-- Reads with `p` under the name of rule `r`: a failure is noted at the place
where the rule was tried. -/
def rule (r : Rule) (p : Parser α) : Parser α where
  run := p.run
  note := fun input attempts =>
    let after := p.note input attempts
    match p.run input with
    | some _ => after
    | none => after.fail r input.length (attempts.countAt input.length)

@[simp] theorem run_pure
    (x : α) (input : List Char) :
    (pure x : Parser α).run input = some (x, input) := by
  rfl

@[simp] theorem run_bind
    (p : Parser α) (f : α → Parser β) (input : List Char) :
    (p >>= f).run input = (p.run input).bind (fun r => (f r.1).run r.2) := by
  rfl

@[simp] theorem run_orTry
    (p q : Parser α) (input : List Char) :
    (p.orTry q).run input = (p.run input).or (q.run input) := by
  cases h : p.run input <;> simp [orTry, h]

@[simp] theorem run_rule
    (r : Rule) (p : Parser α) (input : List Char) :
    (rule r p).run input = p.run input := by
  rfl

end Parser

end Curried
