import Curried.Number.Shortest

/-!
# Texts of numbers

A number is written with the fewest digits that read back as the same double.
Where the point stands and when an exponent is written is the decision of a
`NumberFormat`; the formats in use are values of that type.
-/

namespace Curried

/-- Decisions on how numbers are written: the decimal exponents of the first
digit that are written without an exponent (all of them if `none`), whether
whole numbers keep a zero after the point, whether a positive exponent has a
plus sign, and which of two equally near decimals is written. -/
structure NumberFormat where
  positional : Option (Int × Int)
  pointZero : Bool
  plusSign : Bool
  tie : Tie

namespace NumberFormat

/-- Numbers as a program shows them: never an exponent, and no point in whole
numbers. -/
def display : NumberFormat :=
  ⟨none, false, false, .up⟩

/-- Numbers as values are inspected: an exponent from `10 ^ 16` on and below
`10 ^ -4`, else at least one digit after the point. -/
def inspect : NumberFormat :=
  ⟨some (-4, 15), true, false, .up⟩

/-- Numbers in messages about node trees: an exponent from `10 ^ 16` on and
below `10 ^ -5`, always with a sign.  Of two equally near decimals the even one
is written. -/
def treeMessage : NumberFormat :=
  ⟨some (-5, 15), true, true, .even⟩

/-- A number of zeros. -/
def zeros (n : Nat) : String :=
  String.ofList (List.replicate n '0')

/-- The digits of a decimal with the point in its place. -/
def positionalText (f : NumberFormat) (d : Decimal) : String :=
  let digits := Nat.toDigits 10 d.digits
  if 0 ≤ d.exponent then
    String.ofList digits ++ zeros d.exponent.toNat ++ (if f.pointZero then ".0" else "")
  else
    let places := (-d.exponent).toNat
    if places < digits.length then
      String.ofList (digits.take (digits.length - places)) ++ "."
        ++ String.ofList (digits.drop (digits.length - places))
    else
      "0." ++ zeros (places - digits.length) ++ String.ofList digits

/-- The exponent with its sign. -/
def exponentText (f : NumberFormat) (e : Int) : String :=
  (if e < 0 then "-" else if f.plusSign then "+" else "") ++
    String.ofList (Nat.toDigits 10 e.natAbs)

/-- One digit before the point, the others behind it, and an exponent. -/
def scientificText (f : NumberFormat) (d : Decimal) : String :=
  let digits := Nat.toDigits 10 d.digits
  let first := String.ofList (digits.take 1)
  let others := String.ofList (digits.drop 1)
  first ++ (if others.isEmpty then "" else "." ++ others) ++ "e"
    ++ f.exponentText (d.exponent + Int.ofNat (digits.length - 1))

/-- A decimal without sign. -/
def decimalText (f : NumberFormat) (d : Decimal) : String :=
  match f.positional with
  | none => f.positionalText d
  | some (least, greatest) =>
      let first := d.exponent + Int.ofNat ((Nat.toDigits 10 d.digits).length - 1)
      if d.digits = 0 || (least ≤ first && first ≤ greatest) then
        f.positionalText d
      else
        f.scientificText d

/-- The text of a double.  Negative zero keeps its sign; what is not a number
has none. -/
def text (f : NumberFormat) (x : Float) : String :=
  let bits := x.toBits.toNat
  let exponent := bits / Binary.normal % 0x800
  let fraction := bits % Binary.normal
  let sign := if bits / Binary.normal < 0x800 then "" else "-"
  if exponent = 2047 then
    if fraction = 0 then sign ++ "inf" else "NaN"
  else
    sign ++ f.decimalText ((Binary.ofFields exponent fraction).shortest f.tie)

end NumberFormat

end Curried
