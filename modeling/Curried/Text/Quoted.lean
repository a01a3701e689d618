import Curried.Text.Hidden

/-!
# Quoted texts

A text between double quotes, as it stands in messages.  Quotes and backslashes
get a backslash; null, tab, line feed and carriage return have a letter of their
own; any other character without a visible form is written by its number.
-/

namespace Curried

namespace Text

/-- A number in lower case hexadecimal digits. -/
def hex (n : Nat) : String :=
  String.ofList (Nat.toDigits 16 n)

/-- How one character stands inside quotes. -/
def escaped (c : Char) : String :=
  match c with
  | '\x00' => "\\0"
  | '\t' => "\\t"
  | '\r' => "\\r"
  | '\n' => "\\n"
  | '\\' => "\\\\"
  | '"' => "\\\""
  | _ => if isHidden c then "\\u\x7b" ++ hex c.toNat ++ "\x7d" else c.toString

/-- A text between quotes. -/
def quoted (s : String) : String :=
  "\"" ++ String.join (s.toList.map escaped) ++ "\""

/-- A list of texts between brackets, each of them quoted. -/
def quotedList (texts : List String) : String :=
  "[" ++ String.intercalate ", " (texts.map quoted) ++ "]"

end Text

end Curried
