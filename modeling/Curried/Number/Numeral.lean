/-!
# Numerals

Reading decimal numerals as doubles.  Every numeral is rounded to the nearest
double, a tie to the even one; what is too large is infinite.
-/

namespace Curried

namespace Numeral

/-- The value of a list of decimal digits. -/
def natOfDigits (digits : List Char) : Nat :=
  digits.foldl (fun n c => 10 * n + (c.toNat - '0'.toNat)) 0

/-- The double nearest to a whole number given by its digits. -/
def ofDigits (digits : List Char) : Float :=
  Float.ofScientific (natOfDigits digits) false 0

/-- The double nearest to `significand · 10 ^ exponent`.  Exponents beyond those
that matter for the given number of digits are cut off. -/
def scaled (significand digits : Nat) (exponent : Int) : Float :=
  let bound : Int := Int.ofNat digits + 400
  let e := max (-bound) (min bound exponent)
  Float.ofScientific significand (e < 0) e.natAbs

/-- An exponent: the letter, an optional sign, and digits; an absent one is
zero. -/
def exponent? : List Char → Option Int
  | [] => some 0
  | c :: rest =>
      if c == 'e' || c == 'E' then
        let (negative, digits) := match rest with
          | '-' :: r => (true, r)
          | '+' :: r => (false, r)
          | r => (false, r)
        if digits.isEmpty || !digits.all Char.isDigit then
          none
        else
          let n := Int.ofNat (natOfDigits digits)
          some (if negative then -n else n)
      else
        none

/-- A numeral without sign: digits with an optional point among them and an
optional exponent, or the name of an infinity or of what is not a number, in
letters of either case. -/
def unsigned? (chars : List Char) : Option Float :=
  match String.ofList (chars.map Char.toLower) with
  | "nan" => some (0.0 / 0.0)
  | "inf" => some (1.0 / 0.0)
  | "infinity" => some (1.0 / 0.0)
  | _ =>
      let whole := chars.takeWhile Char.isDigit
      let rest := chars.dropWhile Char.isDigit
      let (fraction, tail) := match rest with
        | '.' :: r => (r.takeWhile Char.isDigit, r.dropWhile Char.isDigit)
        | r => ([], r)
      if whole.isEmpty && fraction.isEmpty then
        none
      else
        (exponent? tail).map fun e =>
          let digits := whole ++ fraction
          scaled (natOfDigits digits) digits.length (e - Int.ofNat fraction.length)

/-- A numeral with an optional sign. -/
def read? (s : String) : Option Float :=
  match s.toList with
  | '-' :: rest => (unsigned? rest).map (fun x => -x)
  | '+' :: rest => unsigned? rest
  | chars => unsigned? chars

end Numeral

end Curried
