import Curried.Json.TreeError

/-!
# Reading JSON texts and numbers

The leaves of a JSON document.  A number is only ever read to name it in an
error message, and a member of no meaning is only read to find its end; for the
latter the rules are laxer, and `skipText`, `skipNumber` follow those.

**Numbers.**  The first digits that fit into 64 bits are kept, and the power of
ten is applied to them by a single multiplication or division of doubles.
-/

namespace Curried

/-- A reader of part of a JSON text: a result and the characters after it, or an
error. -/
abbrev JsonReader (α : Type) : Type :=
  List Char → Except TreeError (α × List Char)

namespace JsonReader

/-- The characters that may stand between the parts of a document. -/
def isBlank (c : Char) : Bool :=
  c == ' ' || c == '\t' || c == '\n' || c == '\r'

/-- The input from its first character that is not blank. -/
def skipBlanks (input : List Char) : List Char :=
  input.dropWhile isBlank

/-- The value of a hexadecimal digit. -/
def hexValue? (c : Char) : Option Nat :=
  if c.isDigit then some (c.toNat - '0'.toNat)
  else if 'a' ≤ c ∧ c ≤ 'f' then some (c.toNat - 'a'.toNat + 10)
  else if 'A' ≤ c ∧ c ≤ 'F' then some (c.toNat - 'A'.toNat + 10)
  else none

/-- The number of bytes of a text in UTF-8. -/
def byteCount (cs : List Char) : Nat :=
  cs.foldl (fun n c => n + c.utf8Size) 0

/-- Four hexadecimal digits.  With fewer than four bytes left the text has ended
too early. -/
def hexCode : JsonReader Nat
  | a :: b :: c :: d :: rest =>
      match hexValue? a, hexValue? b, hexValue? c, hexValue? d with
      | some a, some b, some c, some d =>
          .ok (((a * 16 + b) * 16 + c) * 16 + d, rest)
      | _, _, _, _ => .error .badEscape
  | input => .error (if 4 ≤ byteCount input then .badEscape else .endInText)

/-- The character behind a code that is no surrogate, or behind a surrogate and
the one that must follow it. -/
def codeEscape (input : List Char) : Except TreeError (Char × List Char) := do
  let (code, rest) ← hexCode input
  if 0xDC00 ≤ code ∧ code ≤ 0xDFFF then
    .error .loneSurrogate
  else if code < 0xD800 ∨ 0xDFFF < code then
    .ok (Char.ofNat code, rest)
  else
    match rest with
    | [] => .error .endInText
    | '\\' :: [] => .error .endInText
    | '\\' :: 'u' :: rest => do
        let (low, rest) ← hexCode rest
        if 0xDC00 ≤ low ∧ low ≤ 0xDFFF then
          .ok (Char.ofNat ((code - 0xD800) * 0x400 + (low - 0xDC00) + 0x10000), rest)
        else
          .error .loneSurrogate
    | _ => .error .unpairedSurrogate

/-- The character that an escape letter stands for. -/
def escapeLetter? : Char → Option Char
  | '"' => some '"'
  | '\\' => some '\\'
  | '/' => some '/'
  | 'b' => some '\x08'
  | 'f' => some '\x0c'
  | 'n' => some '\n'
  | 'r' => some '\r'
  | 't' => some '\t'
  | _ => none

/-- The character behind an escape, after its backslash. -/
def escape : JsonReader Char
  | [] => .error .endInText
  | 'u' :: rest => codeEscape rest
  | c :: rest =>
      match escapeLetter? c with
      | some d => .ok (d, rest)
      | none => .error .badEscape

/-- Reads a text from after its opening quote, in at most `n` steps. -/
def textWithin : Nat → JsonReader (List Char)
  | 0, _ => .error .endInText
  | _ + 1, [] => .error .endInText
  | n + 1, c :: rest =>
      if c = '"' then
        .ok ([], rest)
      else if c = '\\' then do
        let (d, rest) ← escape rest
        let (ds, rest) ← textWithin n rest
        .ok (d :: ds, rest)
      else if c.toNat < 0x20 then
        .error .controlCharacter
      else do
        let (ds, rest) ← textWithin n rest
        .ok (c :: ds, rest)

/-- Reads a text from after its opening quote. -/
def textAfterQuote (input : List Char) : Except TreeError (String × List Char) := do
  let (cs, rest) ← textWithin (input.length + 1) input
  .ok (String.ofList cs, rest)

/-- Skips an escape, after its backslash; surrogates are not looked at. -/
def skipEscape : List Char → Except TreeError (List Char)
  | [] => .error .endInText
  | 'u' :: rest => (hexCode rest).map (·.2)
  | c :: rest => if (escapeLetter? c).isSome then .ok rest else .error .badEscape

/-- Skips a text from after its opening quote, in at most `n` steps. -/
def skipTextWithin : Nat → List Char → Except TreeError (List Char)
  | 0, _ => .error .endInText
  | _ + 1, [] => .error .endInText
  | n + 1, c :: rest =>
      if c = '"' then
        .ok rest
      else if c = '\\' then do
        let rest ← skipEscape rest
        skipTextWithin n rest
      else if c.toNat < 0x20 then
        .error .controlCharacter
      else
        skipTextWithin n rest

/-- Skips a text from after its opening quote. -/
def skipText (input : List Char) : Except TreeError (List Char) :=
  skipTextWithin (input.length + 1) input

/-- Reads the rest of a word such as `null`. -/
def word : List Char → List Char → Except TreeError (List Char)
  | [], input => .ok input
  | _ :: _, [] => .error .endInValue
  | w :: ws, c :: rest => if c = w then word ws rest else .error .expectedWord

/-- Drops the digits at the front of the input. -/
def dropDigits (input : List Char) : List Char :=
  input.dropWhile Char.isDigit

/-- Whether the input starts with a digit. -/
def startsWithDigit : List Char → Bool
  | c :: _ => c.isDigit
  | [] => false

/-- Skips an exponent, after its letter. -/
def skipExponent (input : List Char) : Except TreeError (List Char) :=
  let digits := match input with
    | '+' :: rest => rest
    | '-' :: rest => rest
    | rest => rest
  if startsWithDigit digits then .ok (dropDigits digits) else .error .badNumber

/-- Skips an exponent if there is one. -/
def skipOptionalExponent : List Char → Except TreeError (List Char)
  | 'e' :: rest => skipExponent rest
  | 'E' :: rest => skipExponent rest
  | rest => .ok rest

/-- Skips a number from after its sign. -/
def skipNumber (input : List Char) : Except TreeError (List Char) := do
  let rest ← match input with
    | '0' :: rest => if startsWithDigit rest then .error .badNumber else .ok rest
    | rest =>
        if startsWithDigit rest then .ok (dropDigits rest)
          else .error .badNumber
  match rest with
  | '.' :: rest =>
      if startsWithDigit rest then skipOptionalExponent (dropDigits rest)
        else .error .badNumber
  | rest => skipOptionalExponent rest

/-- The greatest number that fits into 64 bits. -/
def greatestWord : Nat :=
  0xFFFFFFFFFFFFFFFF

/-- The greatest exponent that is still reckoned with. -/
def greatestExponent : Nat :=
  0x7FFFFFFF

/-- The value of a digit. -/
def digitValue (c : Char) : Nat :=
  c.toNat - '0'.toNat

/-- Applies a power of ten to a double.  Negative powers beyond the range of
doubles are applied in parts; a product that is infinite is out of range. -/
def applyPower : Nat → Float → Int → Except TreeError Float
  | 0, x, _ => .ok x
  | n + 1, x, e =>
      if e.natAbs ≤ 308 then
        let power := Float.ofScientific 1 false e.natAbs
        if e < 0 then
          .ok (x / power)
        else if (x * power).isInf then
          .error .numberOutOfRange
        else
          .ok (x * power)
      else if x == 0 then
        .ok x
      else if 0 ≤ e then
        .error .numberOutOfRange
      else
        applyPower n (x / Float.ofScientific 1 false 308) (e + 308)

/-- The double for a sign, a significand and a power of ten. -/
def assemble (negative : Bool) (significand : Nat) (exponent : Int) :
    Except TreeError Float := do
  let x ← applyPower 4 (Float.ofScientific significand false 0) exponent
  .ok (if negative then -x else x)

/-- The digits of an exponent after the first one.  Nothing if they exceed the
greatest exponent. -/
def exponentDigits (e : Nat) : List Char → Option (Nat × List Char)
  | [] => some (e, [])
  | c :: rest =>
      if c.isDigit then
        if greatestExponent < e * 10 + digitValue c then none
          else exponentDigits (e * 10 + digitValue c) rest
      else
        some (e, c :: rest)

/-- Reads an exponent, after its letter, and puts the number together. -/
def finishExponent (negative : Bool) (significand : Nat) (start : Int)
    (input : List Char) : 
    Except TreeError (Float × List Char) :=
  let (down, digits) := match input with
    | '+' :: rest => (false, rest)
    | '-' :: rest => (true, rest)
    | rest => (false, rest)
  match digits with
  | [] => .error .endInValue
  | c :: rest =>
      if c.isDigit then
        match exponentDigits (digitValue c) rest with
        | some (e, rest) => do
            let total := if down then start - Int.ofNat e else start + Int.ofNat e
            let x ← assemble negative significand total
            .ok (x, rest)
        | none =>
            if significand ≠ 0 ∧ ¬ down then
              .error .numberOutOfRange
            else
              .ok (if negative then -0.0 else 0.0, dropDigits rest)
      else
        .error .badNumber

/-- Reads an exponent if there is one, and puts the number together. -/
def finishNumber (negative : Bool) (significand : Nat) (exponent : Int) :
    JsonReader Float
  | 'e' :: rest => finishExponent negative significand exponent rest
  | 'E' :: rest => finishExponent negative significand exponent rest
  | rest => do
      let x ← assemble negative significand exponent
      .ok (x, rest)

/-- Adds digits to a significand as long as it fits into 64 bits: the
significand, the number of digits added, and the rest of the input. -/
def addDigits (significand count : Nat) : List Char → Nat × Nat × List Char
  | [] => (significand, count, [])
  | c :: rest =>
      if c.isDigit && significand * 10 + digitValue c ≤ greatestWord then
        addDigits (significand * 10 + digitValue c) (count + 1) rest
      else
        (significand, count, c :: rest)

/-- Reads the digits after the point, and puts the number together.  Digits that
no longer fit are dropped. -/
def finishFraction (negative : Bool) (significand : Nat) (exponent : Int)
    (input : List Char) : 
    Except TreeError (Float × List Char) :=
  let (significand', count, rest) := addDigits significand 0 input
  if startsWithDigit rest then
    finishNumber negative significand' (exponent - Int.ofNat count)
      (dropDigits rest)
  else if count = 0 then
    .error (if rest.isEmpty then .endInValue else .badNumber)
  else
    finishNumber negative significand' (exponent - Int.ofNat count) rest

/-- Reads what follows the digits before the point, all of which fit. -/
def afterWhole (negative : Bool) (significand : Nat) (input : List Char) :
    Except TreeError (Found × List Char) :=
  match input with
  | '.' :: rest =>
      (finishFraction negative significand 0 rest).map fun (x, rest) =>
        (.float x, rest)
  | 'e' :: rest =>
      (finishExponent negative significand 0 rest).map fun (x, rest) =>
        (.float x, rest)
  | 'E' :: rest =>
      (finishExponent negative significand 0 rest).map fun (x, rest) =>
        (.float x, rest)
  | rest =>
      if negative then
        if significand = 0 ∨ 0x8000000000000000 < significand then
          .ok (.float (-(Float.ofScientific significand false 0)), rest)
        else
          .ok (.integer (-(Int.ofNat significand)), rest)
      else
        .ok (.integer (Int.ofNat significand), rest)

/-- Reads what follows the digits before the point that fit, when more digits
follow. -/
def afterLongWhole (negative : Bool) (significand : Nat) (input : List Char) :
    Except TreeError (Found × List Char) :=
  let dropped := (input.takeWhile Char.isDigit).length
  let result := match dropDigits input with
    | '.' :: rest => finishFraction negative significand (Int.ofNat dropped) rest
    | rest => finishNumber negative significand (Int.ofNat dropped) rest
  result.map fun (x, rest) => (.float x, rest)

/-- Reads a number from after its sign. -/
def number (negative : Bool) (input : List Char) :
    Except TreeError (Found × List Char) :=
  match input with
  | [] => .error .endInValue
  | '0' :: rest =>
      if startsWithDigit rest then .error .badNumber
        else afterWhole negative 0 rest
  | c :: rest =>
      if c.isDigit then
        let (significand, _, rest) := addDigits (digitValue c) 0 rest
        if startsWithDigit rest then
          afterLongWhole negative significand rest
        else
          afterWhole negative significand rest
      else
        .error .badNumber

/-- Names what stands at the front of the input, where something else was
wanted.  A scalar is read to its end, so that its own errors come first. -/
def wrongType (wanted : Wanted) (input : List Char) : TreeError :=
  let found : Except TreeError Found := match input with
    | 'n' :: rest => (word ['u', 'l', 'l'] rest).map fun _ => .null
    | 't' :: rest => (word ['r', 'u', 'e'] rest).map fun _ => .boolean true
    | 'f' :: rest => (word ['a', 'l', 's', 'e'] rest).map fun _ => .boolean false
    | '-' :: rest => (number true rest).map (·.1)
    | '"' :: rest => (textAfterQuote rest).map fun (s, _) => .text s
    | '[' :: _ => .ok .sequence
    | '{' :: _ => .ok .map
    | c :: _ =>
        if c.isDigit then (number false input).map (·.1)
          else .error .expectedValue
    | [] => .error .expectedValue
  match found with
  | .ok f => .wrongType f wanted
  | .error e => e

end JsonReader

end Curried
