import Spruce.Text.Basic

set_option autoImplicit false

/-!
# Floating-point numbers

The 64-bit floating-point format with a sign bit, eleven bits of exponent and
fifty-two bits of fraction. A number of the format is given by its bit pattern,
and all arithmetic on it is on whole numbers.

A magnitude `num / den` is rounded by measuring it in units of `2 ^ q`, the
spacing of the format near it, and taking the nearest whole number of them, the
even one of two. A carry into the next power of two needs no special case, as the
bit patterns of neighbouring magnitudes are neighbouring numbers.

Main definitions: `Binary64`, its parts `Binary64.significand` and
`Binary64.exponent`, its comparisons `Binary64.equal` and
`Binary64.equalInteger`, and `magnitudeBits`, the rounding.
-/

namespace Spruce

/-! ## The format -/

/-- Number of bits after the leading bit of a significand. -/
def fractionBits : Nat := 52

/-- The spacing of the smallest numbers of the format is two to the power of minus
this. -/
def smallestSpacing : Nat := 1074

/-- The bit pattern of infinity. -/
def infinityBits : Nat := 0x7ff * Nat.pow 2 fractionBits

/-- The bit that tells a negative number. -/
def signBit : Nat := Nat.pow 2 63

/-- A number of the format, by its bit pattern. -/
structure Binary64 where
  bits : Nat
  deriving DecidableEq, Repr

namespace Binary64

/-- The number with the given sign and magnitude. -/
def ofMagnitude (negative : Bool) (magnitude : Nat) : Binary64 :=
  ⟨if negative then signBit + magnitude else magnitude⟩

/-- The bit pattern without the sign. -/
def magnitude (x : Binary64) : Nat := x.bits % signBit

/-- A number with the sign bit set. -/
def isNegative (x : Binary64) : Bool := signBit ≤ x.bits

/-- A pattern that stands for no number. -/
def isNaN (x : Binary64) : Bool := infinityBits < x.magnitude

/-- One of the two infinities. -/
def isInfinite (x : Binary64) : Bool := x.magnitude = infinityBits

/-- One of the two zeros. -/
def isZero (x : Binary64) : Bool := x.magnitude = 0

/-- The exponent field. -/
def exponentField (x : Binary64) : Nat := x.magnitude / Nat.pow 2 fractionBits

/-- The fraction field. -/
def fractionField (x : Binary64) : Nat := x.magnitude % Nat.pow 2 fractionBits

/-- The whole number `m` of a finite magnitude `m * 2 ^ q`. -/
def significand (x : Binary64) : Nat :=
  if x.exponentField = 0 then x.fractionField else Nat.pow 2 fractionBits + x.fractionField

/-- The exponent `q` of a finite magnitude `m * 2 ^ q`. -/
def exponent (x : Binary64) : Int := ((max x.exponentField 1 - 1 : Nat) : Int) - smallestSpacing

/-- The numbers are the same; both zeros are, and what is no number is the same as
nothing. -/
def equal (x y : Binary64) : Bool :=
  !x.isNaN && !y.isNaN && (x.bits = y.bits || (x.isZero && y.isZero))

/-- The number is the given whole number. -/
def equalInteger (x : Binary64) (n : Int) : Bool :=
  let m : Int := if x.isNegative then -x.significand else x.significand
  x.magnitude < infinityBits &&
    m * Nat.pow 2 x.exponent.toNat = n * Nat.pow 2 (-x.exponent).toNat

end Binary64

/-! ## Rounding -/

/-- The whole number nearest to `num / den`, the even one of two. -/
def roundHalfEven (num den : Nat) : Nat :=
  let whole := num / den
  let twice := 2 * (num % den)
  if twice < den then whole
  else if den < twice then whole + 1
  else whole + whole % 2

/-- The greatest `k` such that `2 ^ k` is at most `num / den`. -/
def floorLog2 (num den : Nat) : Int :=
  let k : Int := (num.log2 : Int) - den.log2
  let reached : Bool := den * Nat.pow 2 k.toNat ≤ num * Nat.pow 2 (-k).toNat
  if reached then k else k - 1

/-- The exponent of the spacing of the format near `num / den`. -/
def spacing (num den : Nat) : Int :=
  max (floorLog2 num den - fractionBits) (-smallestSpacing)

/-- The bit pattern of the number of the format nearest to `num / den`. -/
def magnitudeBits (num den : Nat) : Nat :=
  if num = 0 then 0
  else
    let q := spacing num den
    let units := roundHalfEven (num * Nat.pow 2 (-q).toNat) (den * Nat.pow 2 q.toNat)
    min infinityBits ((q + smallestSpacing).toNat * Nat.pow 2 fractionBits + units)

end Spruce
