import JvmAssembler.Number.Binary

/-!
# Shortest decimal text of binary floating-point numbers

A number is written with the fewest decimal digits that read back as the same
number, and among those with the digits nearest to it.  The digits are selected
by exact integer arithmetic.

A real number reads back as `m * 2 ^ e` if it lies between the midpoints to the
neighbours, the midpoints included when `m` is even.  On the grid of decimals
with `n` digits only the two grid points around the number can be nearest, so
each grid needs two tests.
-/

namespace JvmAssembler

/-- A decimal number `digits * 10 ^ exponent`. -/
structure Decimal where
  digits : Nat
  exponent : Int
  deriving DecidableEq

namespace Decimal

/-- Number of decimal digits; none for zero. -/
def digitCount (n : Nat) : Nat :=
  if n = 0 then 0 else (Nat.toDigits 10 n).length

/-- Positional text, without an exponent and without a point for integers. -/
def text (d : Decimal) : String :=
  let digits := Nat.toDigits 10 d.digits
  if 0 ≤ d.exponent then
    String.ofList (digits ++ List.replicate d.exponent.toNat '0')
  else
    let places := (-d.exponent).toNat
    let padded := List.replicate (places + 1 - digits.length) '0' ++ digits
    let whole := padded.length - places
    String.ofList (padded.take whole ++ '.' :: padded.drop whole)

end Decimal

/-- A positive number together with the interval of reals that read back as it,
all three as multiples of the rational `unitNum / unitDen`. -/
structure ReadBack where
  lower : Nat
  value : Nat
  upper : Nat
  closed : Bool
  unitNum : Nat
  unitDen : Nat

namespace ReadBack

/-- The interval of `significand * 2 ^ exponent`, in quarters of the last
binary place. -/
def ofFinite (significand : Nat) (exponent : Int) (lowGap : Bool) : ReadBack where
  lower := 4 * significand - (if lowGap then 1 else 2)
  value := 4 * significand
  upper := 4 * significand + 2
  closed := significand % 2 == 0
  unitNum := Nat.pow 2 (exponent - 2).toNat
  unitDen := Nat.pow 2 (2 - exponent).toNat

/-- The decimal position before the first digit: the number is below
`10 ^ position` and not below a tenth of it. -/
def position (r : ReadBack) : Int :=
  let num := r.value * r.unitNum
  if r.unitDen ≤ num then Decimal.digitCount (num / r.unitDen)
  else 1 - (Decimal.digitCount ((r.unitDen - 1) / num) : Int)

/-- The grid point of `10 ^ exponent` that reads back as the number and is
nearest to it; of two equally near ones the larger. -/
def onGrid? (r : ReadBack) (exponent : Int) : Option Nat :=
  let scale := r.unitNum * Nat.pow 10 (-exponent).toNat
  let cell := r.unitDen * Nat.pow 10 exponent.toNat
  let below := r.value * scale / cell
  let above := below + 1
  let belowFits :=
    if r.closed then r.lower * scale ≤ below * cell else r.lower * scale < below * cell
  let aboveFits :=
    if r.closed then above * cell ≤ r.upper * scale else above * cell < r.upper * scale
  let nearerAbove := cell ≤ 2 * (r.value * scale - below * cell)
  if belowFits && !(aboveFits && nearerAbove) then some below
  else if aboveFits then some above
  else none

/-- Try grids of growing precision, at most `fuel` of them. -/
def search (r : ReadBack) (exponent : Int) : Nat → Decimal
  | 0 => ⟨0, 0⟩
  | fuel + 1 =>
      match r.onGrid? exponent with
      | some digits =>
          if digits % 10 = 0 then ⟨digits / 10, exponent + 1⟩ else ⟨digits, exponent⟩
      | none => r.search (exponent - 1) fuel

/-- The shortest decimal; seventeen digits always suffice for 64 bits. -/
def shortest (r : ReadBack) : Decimal :=
  r.search (r.position - 1) 17

end ReadBack

namespace BinaryValue

/-- The number as it is written in listings. -/
def text : BinaryValue → String
  | .nan => "NaN"
  | .infinite negative => if negative then "-inf" else "inf"
  | .finite negative significand exponent lowGap =>
      let magnitude : Decimal :=
        if significand = 0 then ⟨0, 0⟩
        else (ReadBack.ofFinite significand exponent lowGap).shortest
      (if negative then "-" else "") ++ magnitude.text

end BinaryValue

end JvmAssembler
