import Curried.Grammar.Parser

/-!
# Lexemes

The words of the language: integers, texts, names, operators, and the layout
(blanks, tabs and comments) that may stand between them.  Each reader takes the
longest lexeme of its class from the front of the input.

**Operators.**  A run of operator characters is one operator, however long; the
single characters `$ + - * / =` are reserved.  A run that starts with `--` is
never an operator, since it opens a comment.
-/

namespace Curried

namespace Lexeme

/-- Blanks and tabs. -/
def isBlank (c : Char) : Bool :=
  c == ' ' || c == '\t'

/-- The characters that end a comment. -/
def isLineEnd (c : Char) : Bool :=
  c == '\n' || c == '\r'

/-- A name starts with an ASCII letter or an underscore. -/
def isNameStart (c : Char) : Bool :=
  c.isAlpha || c == '_'

/-- A name goes on with ASCII letters, digits, underscores and primes. -/
def isNamePart (c : Char) : Bool :=
  c.isAlphanum || c == '_' || c == '\''

/-- The characters of which operators are made. -/
def isOperatorChar (c : Char) : Bool :=
  ['!', '#', '%', '&', '*', '+', '.', '/', '<', '=', '>', '?', '@', '\\', '^',
    '|', '-', '~', ':', '$'].contains c

/-- The characters that alone are reserved operators. -/
def isReserved (c : Char) : Bool :=
  ['$', '+', '-', '*', '/', '='].contains c

/-- The comment at the front of the input, up to the end of the line; empty if
there is none. -/
def comment : List Char → List Char
  | '-' :: '-' :: rest => '-' :: '-' :: rest.takeWhile (fun c => !isLineEnd c)
  | _ => []

/-- The layout at the front of the input: blanks, then a comment. -/
def layoutOf (input : List Char) : List Char :=
  input.takeWhile isBlank ++ comment (input.dropWhile isBlank)

/-- Takes the layout at the front of the input and gives its text. -/
def layout : Parser String :=
  .lexeme fun input =>
    let taken := layoutOf input
    some (String.ofList taken, input.drop taken.length)

/-- Takes a non-empty run of characters of one class. -/
def takeRun (isPart : Char → Bool) (input : List Char) :
    Option (String × List Char) :=
  match input.takeWhile isPart with
  | [] => none
  | run => some (String.ofList run, input.dropWhile isPart)

/-- A non-empty run of ASCII digits. -/
def integer : Parser String :=
  .rule .integer (.lexeme (takeRun Char.isDigit))

/-- A letter or underscore and the name characters after it. -/
def takeName : List Char → Option (String × List Char)
  | [] => none
  | c :: rest =>
      if isNameStart c then
        some (String.ofList (c :: rest.takeWhile isNamePart),
          rest.dropWhile isNamePart)
      else
        none

/-- A name. -/
def name : Parser String :=
  .rule .identifier (.lexeme takeName)

/-- The inside of a quoted text and what follows it.  A backslash takes the next
character with it, so that an escaped quote does not end the text. -/
def textBody : List Char → List Char × List Char
  | [] => ([], [])
  | '\\' :: c :: rest =>
      let (body, rest') := textBody rest
      ('\\' :: c :: body, rest')
  | c :: rest =>
      if c = '"' then
        ([], c :: rest)
      else
        let (body, rest') := textBody rest
        (c :: body, rest')

/-- A quoted text, its quotes included. -/
def takeText : List Char → Option (String × List Char)
  | '"' :: input =>
      match textBody input with
      | (body, '"' :: rest) => some (String.ofList ('"' :: body ++ ['"']), rest)
      | _ => none
  | _ => none

/-- A quoted text. -/
def text : Parser String :=
  .rule .text (.lexeme takeText)

/-- Takes the whole run of operator characters at the front of the input if
`accept` admits it. -/
def takeOperator (accept : List Char → Bool) (input : List Char) :
    Option (String × List Char) :=
  let run := input.takeWhile isOperatorChar
  if accept run then
    some (String.ofList run, input.dropWhile isOperatorChar)
  else
    none

/-- A run is a custom operator unless it is empty, a reserved operator, or opens
a comment. -/
def isCustom : List Char → Bool
  | [] => false
  | [c] => !isReserved c
  | '-' :: '-' :: _ => false
  | _ => true

/-- The sign between the two sides of an equation. -/
def equals : Parser String :=
  .rule .equals (.lexeme (takeOperator (· == ['='])))

/-- The operator that applies its left side to its right side. -/
def dollarOperator : Parser String :=
  .rule .dollarOperator (.lexeme (takeOperator (· == ['$'])))

/-- Plus and minus. -/
def additiveOperator : Parser String :=
  .rule .additiveOperator
    (.lexeme (takeOperator fun run => run == ['+'] || run == ['-']))

/-- Times and divided by. -/
def multiplicativeOperator : Parser String :=
  .rule .multiplicativeOperator
    (.lexeme (takeOperator fun run => run == ['*'] || run == ['/']))

/-- Any operator that is not reserved. -/
def customOperator : Parser String :=
  .rule .customOperator (.lexeme (takeOperator isCustom))

/-- Takes the single character `c`. -/
def takeChar (c : Char) : List Char → Option (String × List Char)
  | [] => none
  | d :: rest => if d = c then some (String.ofList [c], rest) else none

/-- An opening parenthesis. -/
def openParen : Parser String :=
  .rule .openParen (.lexeme (takeChar '('))

/-- A closing parenthesis. -/
def closeParen : Parser String :=
  .rule .closeParen (.lexeme (takeChar ')'))

/-- What divides declarations: a semicolon or the end of a line. -/
def takeSeparator : List Char → Option (Unit × List Char)
  | ';' :: rest => some ((), rest)
  | '\n' :: rest => some ((), rest)
  | '\r' :: '\n' :: rest => some ((), rest)
  | '\r' :: rest => some ((), rest)
  | _ => none

/-- One separator. -/
def separator : Parser Unit :=
  .lexeme takeSeparator

/-- The end of the input. -/
def endOfInput : Parser Unit :=
  .rule .endOfInput (.lexeme fun input => if input.isEmpty then some ((), [])
    else none)

end Lexeme

end Curried
