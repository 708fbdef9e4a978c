/-!
# Binary floating-point data

Floating-point literals are carried as their bit patterns.  This file reads a
pattern of an IEEE 754 interchange format as a sign, an integral significand
and a power of two, and rounds integers to the nearest pattern, a half going
to the even neighbour.
-/

namespace JvmAssembler

/-- Field widths of a binary interchange format. -/
structure BinaryFormat where
  fractionBits : Nat
  exponentBits : Nat
  deriving DecidableEq

/-- What a bit pattern stands for. -/
inductive BinaryValue where
  | nan
  | infinite (negative : Bool)
  /-- The number `significand * 2 ^ exponent`.  `lowGap` holds when the next
  smaller number of the format is only half as far away as the next larger. -/
  | finite (negative : Bool) (significand : Nat) (exponent : Int) (lowGap : Bool)
  deriving DecidableEq

namespace BinaryFormat

def single : BinaryFormat := ⟨23, 8⟩

def double : BinaryFormat := ⟨52, 11⟩

/-- Offset of the stored exponent. -/
def bias (f : BinaryFormat) : Nat :=
  Nat.pow 2 (f.exponentBits - 1) - 1

/-- Read a bit pattern. -/
def decode (f : BinaryFormat) (bits : Nat) : BinaryValue :=
  let fraction := bits % Nat.pow 2 f.fractionBits
  let stored := bits / Nat.pow 2 f.fractionBits % Nat.pow 2 f.exponentBits
  let negative := bits / Nat.pow 2 (f.fractionBits + f.exponentBits) % 2 == 1
  let shift : Int := (f.bias + f.fractionBits : Nat)
  if stored = Nat.pow 2 f.exponentBits - 1 then
    if fraction = 0 then .infinite negative else .nan
  else if stored = 0 then
    .finite negative fraction (1 - shift) false
  else
    .finite negative (Nat.pow 2 f.fractionBits + fraction) (stored - shift)
      (fraction == 0 && 1 < stored)

/-- `n / 2 ^ shift` rounded to the nearest integer, a half to the even one. -/
def roundShift (n shift : Nat) : Nat :=
  let quotient := n / Nat.pow 2 shift
  let twice := 2 * (n % Nat.pow 2 shift)
  if Nat.pow 2 shift < twice || (twice == Nat.pow 2 shift && quotient % 2 == 1) then quotient + 1
  else quotient

/-- The pattern nearest to the integer `n`, which must not exceed the range of
the format.  A significand that rounds up to the next power of two carries
into the exponent field. -/
def ofInt (f : BinaryFormat) (n : Int) : Nat :=
  let magnitude := n.natAbs
  let sign := if n < 0 then Nat.pow 2 (f.fractionBits + f.exponentBits) else 0
  if magnitude = 0 then 0
  else
    let top := magnitude.log2
    let significand :=
      if top ≤ f.fractionBits then magnitude * Nat.pow 2 (f.fractionBits - top)
      else roundShift magnitude (top - f.fractionBits)
    sign + (top + f.bias - 1) * Nat.pow 2 f.fractionBits + significand

end BinaryFormat

/-- A `float` by its 32 bits. -/
structure Binary32 where
  bits : UInt32
  deriving DecidableEq

/-- A `double` by its 64 bits. -/
structure Binary64 where
  bits : UInt64
  deriving DecidableEq

namespace BinaryValue

/-- Numeric equality: a pattern that is not a number differs from everything,
and the two zeros are equal. -/
def numericEq : BinaryValue → BinaryValue → Bool
  | .finite s m e _, .finite s' m' e' _ =>
      (m == 0 && m' == 0) || (s == s' && m == m' && e == e')
  | .infinite s, .infinite s' => s == s'
  | _, _ => false

end BinaryValue

namespace Binary32

def value (x : Binary32) : BinaryValue :=
  BinaryFormat.single.decode x.bits.toNat

/-- The `float` nearest to an integer of at most 32 bits. -/
def ofInt (n : Int) : Binary32 :=
  ⟨(BinaryFormat.single.ofInt n).toUInt32⟩

/-- Numeric equality. -/
def numericEq (x y : Binary32) : Bool :=
  x.value.numericEq y.value

/-- The number as a small index, if it is 0 (not -0), 1 or 2: these have load
instructions of their own. -/
def compactIndex? (x : Binary32) : Option UInt8 :=
  if x.bits == 0x00000000 then some 0
  else if x.bits == 0x3f800000 then some 1
  else if x.bits == 0x40000000 then some 2
  else none

end Binary32

namespace Binary64

def value (x : Binary64) : BinaryValue :=
  BinaryFormat.double.decode x.bits.toNat

/-- The `double` nearest to an integer of at most 64 bits. -/
def ofInt (n : Int) : Binary64 :=
  ⟨(BinaryFormat.double.ofInt n).toUInt64⟩

/-- Numeric equality. -/
def numericEq (x y : Binary64) : Bool :=
  x.value.numericEq y.value

/-- The number as a small index, if it is 0 (not -0) or 1: these have load
instructions of their own. -/
def compactIndex? (x : Binary64) : Option UInt8 :=
  if x.bits == 0x0000000000000000 then some 0
  else if x.bits == 0x3ff0000000000000 then some 1
  else none

end Binary64

end JvmAssembler
