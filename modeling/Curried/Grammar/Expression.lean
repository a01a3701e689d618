import Curried.Grammar.Lexeme
import Curried.Tree

/-!
# Expressions

From loosest to tightest an expression is a chain of `$`, of custom operators,
of `+` and `-`, of `*` and `/`, and of applications by juxtaposition.  Chains of
`$` lean to the right, all others to the left.

**Texts.**  A node's text runs from its first character to its last one.  Layout
that was taken after a node belongs to the construct around it, so a parser of
expressions gives a `Phrase`: the node, and the layout behind it.

**Nesting.**  `expression n` reads expressions in which parentheses are nested
less than `n` deep.
-/

namespace Curried

/-- A node and the layout that was taken after it. -/
structure Phrase where
  tree : Tree
  trail : String

namespace Phrase

/-- The text of a phrase: the node and the layout after it. -/
def text (p : Phrase) : String :=
  p.tree.text ++ p.trail

/-- Adds layout at the end. -/
def followedBy (p : Phrase) (gap : String) : Phrase :=
  ⟨p.tree, p.trail ++ gap⟩

end Phrase

/-- A further member of a chain: the layout before its operator, the operator,
the layout after that, the operand. -/
structure Link where
  lead : String
  operator : String
  gap : String
  operand : Phrase

namespace Grammar

open Lexeme

/-- Repeats `p` as often as it succeeds, with layout between the repetitions.
Each result comes with the layout before it; layout after the last one is not
taken. -/
def spaced {α : Type} (p : Parser α) : Parser (List (String × α)) :=
  Parser.orElsePure (do
    let first ← p
    let others ← Parser.many (do
      let gap ← layout
      let x ← p
      pure (gap, x))
    pure (("", first) :: others)) []

/-- The node for an operator between two phrases. -/
def joinInfix (left : Phrase) (lead operator gap : String) (right : Phrase) :
    Phrase :=
  ⟨⟨"infix", left.text ++ lead ++ operator ++ gap ++ right.tree.text,
    [left.tree, Tree.leaf "operator" operator, right.tree]⟩, right.trail⟩

/-- A chain that leans to the left. -/
def leanLeft (first : Phrase) (links : List Link) : Phrase :=
  links.foldl (fun acc l => joinInfix acc l.lead l.operator l.gap l.operand) first

/-- A chain that leans to the right. -/
def leanRight (first : Phrase) : List Link → Phrase
  | [] => first
  | l :: ls => joinInfix first l.lead l.operator l.gap (leanRight l.operand ls)

/-- One or more operands with operators between them. -/
def chain
    (lean : Phrase → List Link → Phrase)
    (operand : Parser Phrase) (operator : Parser String) :
    Parser Phrase := do
  let first ← operand
  let gap ← layout
  let links ← spaced (do
    let op ← operator
    let inner ← layout
    let right ← operand
    pure (op, inner, right))
  pure (lean (first.followedBy gap) (links.map fun (lead, op, inner, right) =>
    ⟨lead, op, inner, right⟩))

/-- The node for a function applied to an argument. -/
def joinApply (function : Phrase) (lead : String) (argument : Tree) : Phrase :=
  ⟨⟨"apply", function.text ++ lead ++ argument.text, [function.tree, argument]⟩, ""⟩

/-- One or more atoms: a function applied to its arguments, one after the
other. -/
def application (atom : Parser Tree) : Parser Phrase := do
  let first ← atom
  let gap ← layout
  let arguments ← spaced atom
  pure (arguments.foldl (fun acc (lead, a) => joinApply acc lead a) ⟨first, gap⟩)

/-- An expression in parentheses. -/
def parens (inner : Parser Phrase) : Parser Tree :=
  .rule .parens do
    let opening ← openParen
    let gap ← layout
    let body ← inner
    let gap' ← layout
    let closing ← closeParen
    pure ⟨"parens", opening ++ gap ++ body.text ++ gap' ++ closing,
      [Tree.leaf "(" opening, body.tree, Tree.leaf ")" closing]⟩

/-- A leaf with the text of a lexeme. -/
def leafOf (tag : String) (lexeme : Parser String) : Parser Tree := do
  let text ← lexeme
  pure (Tree.leaf tag text)

/-- A name as a node. -/
def identifier : Parser Tree :=
  leafOf "variable" name

/-- An integer, a text, a name, or an expression in parentheses. -/
def atom (inner : Parser Phrase) : Parser Tree :=
  (leafOf "integer" integer).orTry
    ((leafOf "string" text).orTry
      (identifier.orTry
        (parens inner)))

/-- Expressions, given how to read those inside parentheses. -/
def expressionOver (inner : Parser Phrase) : Parser Phrase :=
  let applied := Parser.rule .application (application (atom inner))
  let product :=
    Parser.rule .multiplicativeChain
      (chain leanLeft applied multiplicativeOperator)
  let sum := Parser.rule .additiveChain (chain leanLeft product additiveOperator)
  let custom := Parser.rule .customChain (chain leanLeft sum customOperator)
  Parser.rule .dollarChain (chain leanRight custom dollarOperator)

/-- Expressions in which parentheses are nested less than the given number
deep. -/
def expression : Nat → Parser Phrase
  | 0 => .reject
  | n + 1 => expressionOver (expression n)

end Grammar

end Curried
