/-!
# Grammar rules

The rules of the grammar that a syntax error can name.  `Rule.all` lists them in
the order in which an error message lists them: the end of the input first, then
as in the grammar.
-/

namespace Curried

/-- A named rule of the grammar. -/
inductive Rule where
  | endOfInput
  | declarations
  | function
  | patterns
  | bind
  | assignment
  | equals
  | topSplice
  | dollarChain
  | customChain
  | additiveChain
  | multiplicativeChain
  | application
  | parens
  | openParen
  | closeParen
  | integer
  | text
  | identifier
  | dollarOperator
  | additiveOperator
  | multiplicativeOperator
  | customOperator
deriving DecidableEq

namespace Rule

/-- The name by which an error message calls a rule. -/
def name : Rule → String
  | endOfInput => "EOI"
  | declarations => "declarations"
  | function => "function"
  | patterns => "patterns"
  | bind => "bind"
  | assignment => "assignment"
  | equals => "equals"
  | topSplice => "top_splice"
  | dollarChain => "dollar_chain"
  | customChain => "custom_chain"
  | additiveChain => "additive_chain"
  | multiplicativeChain => "multiplicative_chain"
  | application => "application"
  | parens => "parens"
  | openParen => "open_paren"
  | closeParen => "close_paren"
  | integer => "integer"
  | text => "string"
  | identifier => "variable"
  | dollarOperator => "dollar_operator"
  | additiveOperator => "additive_operator"
  | multiplicativeOperator => "multiplicative_operator"
  | customOperator => "custom_operator"

/-- All rules, in the order in which a message lists them. -/
def all : List Rule :=
  [endOfInput, declarations, function, patterns, bind, assignment, equals,
    topSplice, dollarChain, customChain,
    additiveChain, multiplicativeChain, application, parens, openParen,
    closeParen, integer, text, identifier,
    dollarOperator, additiveOperator, multiplicativeOperator, customOperator]

theorem mem_all (r : Rule) : r ∈ all := by
  cases r <;> decide

end Rule

end Curried
