/-!
# Shortest decimals

Every finite double is `m · 2 ^ q` for a natural number `m`.  The decimals
nearer to it than to any other double fill an interval around it, whose ends
belong to it exactly when `m` is even.  `shortest` finds the decimal of fewest
digits in that interval.

**Algorithm.**  For one digit, two digits and so on it tests the two neighbours
of the value among the decimals of that many digits, in exact arithmetic.  The
first number of digits with a neighbour inside the interval wins; of two
neighbours inside, the nearer one; of two equally near, the one that a `Tie`
names.
-/

namespace Curried

/-- Which of two equally near decimals is taken: the larger one, or the one
whose last digit is even. -/
inductive Tie where
  | up
  | even
deriving DecidableEq

/-- Whether the tie between `below` and its successor goes to the successor. -/
def Tie.goesUp (t : Tie) (below : Nat) : Bool :=
  match t with
  | up => true
  | even => below % 2 == 1

/-- The decimal `digits · 10 ^ exponent`. -/
structure Decimal where
  digits : Nat
  exponent : Int
deriving DecidableEq

/-- The magnitude `significand · 2 ^ exponent` of a finite double. -/
structure Binary where
  significand : Nat
  exponent : Int
deriving DecidableEq

namespace Binary

/-- The least significand of a double that is not subnormal, two to the power
52. -/
def normal : Nat :=
  0x10000000000000

/-- The magnitude that the exponent and fraction fields of a finite double stand
for. -/
def ofFields (exponent fraction : Nat) : Binary :=
  if exponent = 0 then
    ⟨fraction, -1074⟩
  else
    ⟨fraction + normal, Int.ofNat exponent - 1075⟩

/-- The gap below the value is half the gap above it when the significand is the
least one of its exponent. -/
def isLowest (b : Binary) : Bool :=
  b.significand == normal && b.exponent != -1074

end Binary

namespace Decimal

/-- The same decimal with no zero at the end of its digits. -/
def trim : Nat → Decimal → Decimal
  | 0, d => d
  | n + 1, d =>
      if d.digits != 0 && d.digits % 10 == 0 then
        trim n ⟨d.digits / 10, d.exponent + 1⟩
      else
        d

/-- The least `k` with `10 ^ k · num ≥ den`, searched upward from `k`. -/
def leadingZeros (num den : Nat) : Nat → Nat → Nat
  | 0, k => k
  | n + 1, k =>
      if num * Nat.pow 10 k < den then leadingZeros num den n (k + 1) else k

/-- The exponent of the first digit of `num / den`. -/
def magnitude (num den : Nat) : Int :=
  if den ≤ num then
    Int.ofNat ((Nat.toDigits 10 (num / den)).length - 1)
  else
    - Int.ofNat (leadingZeros num den 400 1)

/-- An interval of rationals around a value, all over one denominator. -/
structure Neighbourhood where
  low : Nat
  value : Nat
  high : Nat
  den : Nat
  closed : Bool

namespace Neighbourhood

/-- The decimals that are read back as the given double. -/
def ofBinary (b : Binary) : Neighbourhood :=
  let up := Nat.pow 2 (b.exponent - 2).toNat
  let m := 4 * b.significand
  { low := (if b.isLowest then m - 1 else m - 2) * up
    value := m * up
    high := (m + 2) * up
    den := Nat.pow 2 (2 - b.exponent).toNat
    closed := b.significand % 2 == 0 }

/-- Whether the rational `num / den` lies in the interval; both are over the
denominator of the interval times `scale`. -/
def holds (i : Neighbourhood) (num scale : Nat) : Bool :=
  if i.closed then
    i.low * scale ≤ num && num ≤ i.high * scale
  else
    i.low * scale < num && num < i.high * scale

/-- The best decimal with the last digit at `10 ^ exponent` that lies in the
interval, if there is one. -/
def onGrid (i : Neighbourhood) (tie : Tie) (exponent : Int) : Option Decimal :=
  let scale := Nat.pow 10 (-exponent).toNat
  let unit := i.den * Nat.pow 10 exponent.toNat
  let value := i.value * scale
  let below := value / unit
  let rest := value % unit
  if i.holds (below * unit) scale then
    if i.holds ((below + 1) * unit) scale &&
      (unit < 2 * rest || unit == 2 * rest && tie.goesUp below) then
      some ⟨below + 1, exponent⟩
    else
      some ⟨below, exponent⟩
  else if i.holds ((below + 1) * unit) scale then
    some ⟨below + 1, exponent⟩
  else
    none

/-- The decimal of fewest digits in the interval.  The last digit moves down
from the first digit of the value for at most `n` places. -/
def search (i : Neighbourhood) (tie : Tie) : Nat → Int → Decimal
  | 0, exponent => ⟨i.value / i.den, exponent⟩
  | n + 1, exponent => (i.onGrid tie exponent).getD (search i tie n (exponent - 1))

end Neighbourhood

end Decimal

namespace Binary

/-- The decimal of fewest digits that is read back as the given double; zero has
the digit zero.  Seventeen digits always suffice. -/
def shortest (b : Binary) (tie : Tie) : Decimal :=
  if b.significand = 0 then
    ⟨0, 0⟩
  else
    let i := Decimal.Neighbourhood.ofBinary b
    Decimal.trim 20 (i.search tie 18 (Decimal.magnitude i.value i.den))

end Binary

end Curried
