import Spruce.Number.Binary64
import Spruce.Text.Basic

set_option autoImplicit false

/-!
# Shortest decimal forms

A floating-point number is written with the fewest digits that read back to it
and, of those, with the nearest to it. The search runs through the decimal grids
from coarse to fine: on each, only the two points next to the number can be the
answer, and the first grid of which one reads back decides. All comparisons are of
whole numbers.

Main definitions: `Binary64.readsBack`, the numbers that round to a given one;
`Binary64.shortest`, the digits; and `Binary64.text`, their layout.
-/

namespace Spruce

/-! ## The numbers that round to a given one -/

/-- The number `digits * 10 ^ power`. -/
structure Decimal where
  digits : Nat
  power : Int
  deriving DecidableEq, Repr

/-- The order of a decimal number and the number `units * 2 ^ q`. -/
def Decimal.compareBinary (d : Decimal) (units : Nat) (q : Int) : Ordering :=
  compare (d.digits * Nat.pow 10 d.power.toNat * Nat.pow 2 (-q).toNat)
    (units * Nat.pow 2 q.toNat * Nat.pow 10 (-d.power).toNat)

namespace Binary64

/-- The gap to the number below is half the gap to the number above. -/
def isNarrowBelow (x : Binary64) : Bool := x.fractionField = 0 && 1 < x.exponentField

/-- A decimal number rounds to the magnitude of `x`: it is nearer to it than to both
its neighbours, or halfway when the significand is even. -/
def readsBack (x : Binary64) (d : Decimal) : Bool :=
  let quarters := 4 * x.significand
  let low := d.compareBinary (if x.isNarrowBelow then quarters - 1 else quarters - 2)
    (x.exponent - 2)
  let high := d.compareBinary (quarters + 2) (x.exponent - 2)
  let halfway : Bool := x.significand % 2 = 0
  (low = .gt || (halfway && low = .eq)) && (high = .lt || (halfway && high = .eq))

/-! ## The search -/

/-- The magnitude of `x` divided by `10 ^ power`, as a numerator and a
denominator. -/
def scaled (x : Binary64) (power : Int) : Nat × Nat :=
  (x.significand * Nat.pow 2 x.exponent.toNat * Nat.pow 10 (-power).toNat,
    Nat.pow 2 (-x.exponent).toNat * Nat.pow 10 power.toNat)

/-- The magnitude of `x` is below `10 ^ power`. -/
def isBelowPower (x : Binary64) (power : Int) : Bool :=
  let (num, den) := x.scaled power
  num < den

/-- The least power of ten above the magnitude of `x`, which is not zero. It is
estimated by way of the power of two and corrected. -/
def pointPosition (x : Binary64) : Int :=
  let estimate := (((x.significand.log2 : Int) + x.exponent) * 30103).fdiv 100000
  if x.isBelowPower estimate then estimate
  else if x.isBelowPower (estimate + 1) then estimate + 1
  else estimate + 2

/-- The point of the grid `10 ^ power` that is to stand for `x`, if one reads back:
the nearer of the two next to it, the even one of two that are as near. -/
def gridPoint? (x : Binary64) (power : Int) : Option Decimal :=
  let (num, den) := x.scaled power
  let below : Decimal := ⟨num / den, power⟩
  let above : Decimal := ⟨num / den + 1, power⟩
  match x.readsBack below, x.readsBack above with
  | true, true => some ⟨roundHalfEven num den, power⟩
  | true, false => some below
  | false, true => some above
  | false, false => none

/-- The magnitude of `x` itself, as a decimal number. -/
def exactDecimal (x : Binary64) : Decimal :=
  ⟨x.significand * Nat.pow 2 x.exponent.toNat * Nat.pow 5 (-x.exponent).toNat,
    min x.exponent 0⟩

/-- Number of digits that always suffice. -/
def enoughDigits : Nat := 17

/-- The decimal number with the fewest digits that reads back to the magnitude of
`x`, which is finite and not zero. -/
def shortest (x : Binary64) : Decimal :=
  let leading := x.pointPosition - 1
  ((List.range enoughDigits).findSome? fun n : Nat => x.gridPoint? (leading - n)).getD
    x.exactDecimal

end Binary64

/-! ## Layout -/

/-- Digits without the zeros at their end. -/
def withoutFinalZeros (digits : Text) : Text :=
  (digits.reverse.dropWhile (· = '0')).reverse

/-- The number `0.digits * 10 ^ point` with a decimal point in its place and a digit
on either side of it. -/
def positionalText (digits : Text) (point : Int) : Text :=
  if point ≤ 0 then '0' :: '.' :: List.replicate (-point).toNat '0' ++ digits
  else
    let whole := digits.take point.toNat
    let fraction := digits.drop point.toNat
    whole ++ List.replicate (point.toNat - whole.length) '0' ++ '.' ::
      if fraction = [] then ['0'] else fraction

/-- An exponent of ten with its sign and at least two digits. -/
def exponentText (e : Int) : Text :=
  let digits := naturalText e.natAbs
  (if e < 0 then '-' else '+') :: List.replicate (2 - digits.length) '0' ++ digits

/-- The number `0.digits * 10 ^ point` with one digit before the decimal point, which
is left out when nothing follows it. -/
def scientificText (digits : Text) (point : Int) : Text :=
  let fraction := digits.drop 1
  digits.take 1 ++ (if fraction = [] then [] else '.' :: fraction) ++ 'e' :: exponentText (point - 1)

/-- A decimal number: positional from a ten-thousandth up to, and not including, ten
to the power of sixteen, and scientific otherwise. -/
def Decimal.text (d : Decimal) : Text :=
  let all := naturalText d.digits
  let point := d.power + all.length
  let digits := withoutFinalZeros all
  if -4 < point ∧ point ≤ 16 then positionalText digits point else scientificText digits point

/-- A floating-point number in its shortest decimal form. -/
def Binary64.text (x : Binary64) : Text :=
  if x.isNaN then "nan".toList
  else
    (if x.isNegative then ['-'] else []) ++
      if x.isInfinite then "inf".toList
      else if x.isZero then "0.0".toList
      else x.shortest.text

end Spruce
