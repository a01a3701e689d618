import Curried.Number.Notation
import Curried.Text.Quoted

/-!
# Errors in the JSON form of trees

Why a text is not the JSON form of a tree: it is no JSON, it is JSON of the
wrong shape, or it ends too early.
-/

namespace Curried

/-- What stands where something else should. -/
inductive Found where
  | null
  | boolean (b : Bool)
  | integer (n : Int)
  | float (x : Float)
  | text (s : String)
  | sequence
  | map

namespace Found

/-- What was found, in words. -/
def label : Found → String
  | null => "null"
  | boolean b => "boolean `" ++ (if b then "true" else "false") ++ "`"
  | integer n => "integer `" ++ toString n ++ "`"
  | float x => "floating point `" ++ NumberFormat.treeMessage.text x ++ "`"
  | text s => "string " ++ Text.quoted s
  | sequence => "sequence"
  | map => "map"

end Found

/-- What should stand in a place. -/
inductive Wanted where
  | text
  | sequence
  | node
deriving DecidableEq

namespace Wanted

/-- What was wanted, in words. -/
def label : Wanted → String
  | text => "a string"
  | sequence => "a sequence"
  | node => "struct Node"

end Wanted

/-- The members of the object form of a node. -/
inductive Field where
  | tag
  | text
  | children
deriving DecidableEq

namespace Field

/-- The key of a member. -/
def key : Field → String
  | tag => "type"
  | text => "text"
  | children => "children"

/-- The member with a given key. -/
def ofKey? : String → Option Field
  | "type" => some tag
  | "text" => some text
  | "children" => some children
  | _ => none

end Field

/-- Why a text is not the JSON form of a tree. -/
inductive TreeError where
  | wrongType (found : Found) (wanted : Wanted)
  | missingField (field : Field)
  | duplicateField (field : Field)
  | wrongLength (found : Nat)
  | expectedValue
  | expectedWord
  | badNumber
  | numberOutOfRange
  | badEscape
  | loneSurrogate
  | unpairedSurrogate
  | controlCharacter
  | expectedColon
  | expectedListComma
  | expectedObjectComma
  | keyNotText
  | trailingComma
  | trailingCharacters
  | tooDeep
  | endInValue
  | endInText
  | endInList
  | endInObject

namespace TreeError

/-- The three sorts of error: the shape does not fit, the text is no JSON, the
text ends too early. -/
inductive Category where
  | data
  | form
  | ending
deriving DecidableEq

/-- The sort of an error. -/
def category : TreeError → Category
  | wrongType _ _ => .data
  | missingField _ => .data
  | duplicateField _ => .data
  | wrongLength _ => .data
  | endInValue => .ending
  | endInText => .ending
  | endInList => .ending
  | endInObject => .ending
  | _ => .form

/-- The text of an error. -/
def message : TreeError → String
  | wrongType found wanted =>
      "invalid type: " ++ found.label ++ ", expected " ++ wanted.label
  | missingField field => "missing field `" ++ field.key ++ "`"
  | duplicateField field => "duplicate field `" ++ field.key ++ "`"
  | wrongLength found =>
      "invalid length " ++ toString found ++
        ", expected struct Node with 3 elements"
  | expectedValue => "expected value"
  | expectedWord => "expected ident"
  | badNumber => "invalid number"
  | numberOutOfRange => "number out of range"
  | badEscape => "invalid escape"
  | loneSurrogate => "lone leading surrogate in hex escape"
  | unpairedSurrogate => "unexpected end of hex escape"
  | controlCharacter =>
      "control character (\\u0000-\\u001F) found while parsing a string"
  | expectedColon => "expected `:`"
  | expectedListComma => "expected `,` or `]`"
  | expectedObjectComma => "expected `,` or `\x7d`"
  | keyNotText => "key must be a string"
  | trailingComma => "trailing comma"
  | trailingCharacters => "trailing characters"
  | tooDeep => "recursion limit exceeded"
  | endInValue => "EOF while parsing a value"
  | endInText => "EOF while parsing a string"
  | endInList => "EOF while parsing a list"
  | endInObject => "EOF while parsing an object"

end TreeError

end Curried
