import Curried.Grammar.Expression
import Curried.Grammar.SyntaxError

/-!
# Programs

A program is a list of declarations divided by semicolons or line ends: a
function with its parameters and its body, a name bound to an expression, or a
bare expression.  `parse` reads the whole source or reports where it cannot go
on.
-/

namespace Curried

namespace Grammar

open Lexeme

/-- The right-hand side of a declaration, from the equals sign on. -/
def assignment (value : Parser Phrase) : Parser Tree :=
  .rule .assignment do
    let sign ← equals
    let gap ← layout
    let body ← value
    pure ⟨"match", sign ++ gap ++ body.text, [Tree.leaf "=" sign, body.tree]⟩

/-- One or more parameters. -/
def patterns : Parser Tree :=
  .rule .patterns do
    let first ← identifier
    let gap ← layout
    let others ← spaced identifier
    let text :=
      others.foldl (fun acc (lead, p) => acc ++ lead ++ p.text)
        (first.text ++ gap)
    pure ⟨"patterns", text, first :: others.map (·.2)⟩

/-- A function: its name, its parameters, its body. -/
def function (value : Parser Phrase) : Parser Tree :=
  .rule .function do
    let name ← identifier
    let gap ← layout
    let parameters ← patterns
    let gap' ← layout
    let body ← assignment value
    pure ⟨"function", name.text ++ gap ++ parameters.text ++ gap' ++ body.text,
      [name, parameters, body]⟩

/-- A name bound to an expression. -/
def bind (value : Parser Phrase) : Parser Tree :=
  .rule .bind do
    let name ← identifier
    let gap ← layout
    let body ← assignment value
    pure ⟨"bind", name.text ++ gap ++ body.text, [name, body]⟩

/-- A bare expression. -/
def topSplice (value : Parser Phrase) : Parser Tree :=
  .rule .topSplice do
    let body ← value
    pure ⟨"top_splice", body.text, [body.tree]⟩

/-- One declaration. -/
def declaration (value : Parser Phrase) : Parser Tree :=
  (function value).orTry ((bind value).orTry (topSplice value))

/-- Any number of separators. -/
def separators : Parser Unit := do
  let _ ← spaced separator
  pure ()

/-- The declarations of a program and the separators around and between them. -/
def declarations (value : Parser Phrase) : Parser (List Tree) :=
  .rule .declarations do
    let _ ← layout
    separators
    let _ ← layout
    let found ← Parser.orElsePure (do
      let first ← declaration value
      let _ ← layout
      let others ← spaced (do
        separator
        let _ ← layout
        separators
        let _ ← layout
        declaration value)
      pure (first :: others.map (·.2))) []
    let _ ← layout
    separators
    let _ ← layout
    endOfInput
    pure found

/-- The parser of whole programs of at most the given length: parentheses cannot
nest deeper than that. -/
def program (length : Nat) : Parser (List Tree) :=
  declarations (expression (length + 1))

end Grammar

/-- Reads a program. -/
def parse (source : String) : Except SyntaxError Tree :=
  let input := source.toList
  let reader := Grammar.program input.length
  match reader.run input with
  | some (found, _) => .ok ⟨"declarations", source, found⟩
  | none =>
      .error (SyntaxError.ofAttempts source
        (reader.note input (Attempts.start input.length)))

end Curried
