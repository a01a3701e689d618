import Curried.Text.Quoted
import Curried.Tree

/-!
# Writing JSON

Texts, lists and objects in JSON, set out with one member on a line and two
blanks for each level.  A writer puts its characters in front of those that
follow, so that writing is linear and reading can be stated for any
continuation.
-/

namespace Curried

/-- The JSON documents that are written here. -/
inductive Json where
  | text (s : String)
  | list (items : List Json)
  | object (fields : List (String × Json))
deriving Inhabited

namespace Json

/-- How one character stands inside a JSON text: quotes, backslashes and control
characters are escaped, and nothing else. -/
def escape (c : Char) : List Char :=
  match c with
  | '"' => ['\\', '"']
  | '\\' => ['\\', '\\']
  | '\x08' => ['\\', 'b']
  | '\x0c' => ['\\', 'f']
  | '\n' => ['\\', 'n']
  | '\r' => ['\\', 'r']
  | '\t' => ['\\', 't']
  | _ =>
      if c.toNat < 0x20 then
        ['\\', 'u', '0', '0', Nat.digitChar (c.toNat / 16),
          Nat.digitChar (c.toNat % 16)]
      else
        [c]

/-- Writes a text between quotes. -/
def writeText (s : String) (tail : List Char) : List Char :=
  '"' :: s.toList.foldr (fun c rest => escape c ++ rest) ('"' :: tail)

/-- Starts a new line at the given level. -/
def writeBreak (level : Nat) (tail : List Char) : List Char :=
  '\n' :: (List.replicate (2 * level) ' ' ++ tail)

mutual

/-- Writes a document whose first character stands at the given level. -/
def write (level : Nat) : Json → List Char → List Char
  | .text s, tail => writeText s tail
  | .list [], tail => '[' :: ']' :: tail
  | .list (j :: js), tail =>
      '[' :: writeBreak (level + 1)
        (write (level + 1) j
          (writeItems (level + 1) js (writeBreak level (']' :: tail))))
  | .object [], tail => '{' :: '}' :: tail
  | .object (f :: fs), tail =>
      '{' :: writeBreak (level + 1) (writeField (level + 1) f
        (writeFields (level + 1) fs (writeBreak level ('}' :: tail))))

/-- Writes the further members of a list. -/
def writeItems (level : Nat) : List Json → List Char → List Char
  | [], tail => tail
  | j :: js, tail =>
      ',' :: writeBreak level (write level j (writeItems level js tail))

/-- Writes one member of an object. -/
def writeField (level : Nat) : String × Json → List Char → List Char
  | (key, j), tail => writeText key (':' :: ' ' :: write level j tail)

/-- Writes the further members of an object. -/
def writeFields (level : Nat) : List (String × Json) → List Char → List Char
  | [], tail => tail
  | f :: fs, tail =>
      ',' :: writeBreak level (writeField level f (writeFields level fs tail))

end

/-- The text of a document, without a line end after it. -/
def render (j : Json) : String :=
  String.ofList (j.write 0 [])

end Json

namespace Tree

mutual

/-- A tree as a JSON document. -/
def toJson : Tree → Json
  | ⟨tag, text, children⟩ =>
      .object [("type", .text tag), ("text", .text text),
        ("children", .list (toJsonAll children))]

/-- A list of trees as JSON documents. -/
def toJsonAll : List Tree → List Json
  | [] => []
  | t :: ts => toJson t :: toJsonAll ts

end

/-- The JSON text of a tree. -/
def renderJson (t : Tree) : String :=
  t.toJson.render

end Tree

end Curried
