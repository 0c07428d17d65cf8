import Spruce.Number.Binary64
import Spruce.Text.Unicode
import Spruce.Token.Lexer

set_option autoImplicit false

/-!
# Reading numbers

What is taken for a number in a text is wider than the number literals of a
program: white space around it, a sign, digits of any script, underscores between
digits, an integer part or a fraction alone, an exponent, and words for infinity
and for what is no number.

Digits and a power of ten stand for an exact number, which is rounded to the
nearest floating-point number. Numbers too large for the format become infinity,
and numbers too small become zero or one of the subnormal numbers.

Main definitions: `digitsValue` and `decimalBits`; `Numeral`, the exact sense of a
text; `numeral?`, which finds it; and `readNumber?`, which rounds it to a
floating-point number.
-/

namespace Spruce

/-! ## Digits and powers of ten -/

/-- The number that a digit counts for. -/
def digitValue (c : Char) : Nat := c.toNat - '0'.toNat

/-- The number that digits write. -/
def digitsValue (cs : Text) : Nat := cs.foldl (fun n c => 10 * n + digitValue c) 0

/-- Powers of ten from this on are beyond the format. -/
def hugePower : Int := 309

/-- Numbers below this power of ten are nearer to zero than to any other number of
the format. -/
def tinyPower : Int := -324

/-- The bit pattern nearest to `digits * 10 ^ power`, where the digits may have
zeros in front. Powers far out of range are not worked out. -/
def decimalBits (digits : Text) (power : Int) : Nat :=
  let significant := digits.dropWhile (· = '0')
  let top : Int := power + significant.length
  if significant = [] then 0
  else if hugePower < top then infinityBits
  else if top ≤ tinyPower then 0
  else magnitudeBits (digitsValue significant * Nat.pow 10 power.toNat)
    (Nat.pow 10 (-power).toNat)

/-! ## Numerals -/

/-- The exact sense of a text that is taken for a number. -/
inductive Numeral where
  /-- The number `digits * 10 ^ power`, with its sign. -/
  | finite (negative : Bool) (digits : Text) (power : Int)
  | infinite (negative : Bool)
  | notANumber (negative : Bool)
  deriving DecidableEq, Repr

/-- The bit pattern, sign left out, for what is no number. -/
def quietBits : Nat := infinityBits + Nat.pow 2 (fractionBits - 1)

/-- The floating-point number nearest to a numeral. -/
def Numeral.value : Numeral → Binary64
  | finite negative digits power => .ofMagnitude negative (decimalBits digits power)
  | infinite negative => .ofMagnitude negative infinityBits
  | notANumber negative => .ofMagnitude negative quietBits

/-! ## Pieces of a numeral -/

/-- A text without the underscores that stand between two digits, and only if none
stands elsewhere. -/
def ungrouped? : Text → Option Text
  | [] => some []
  | c :: '_' :: cs =>
      if isDigit c && (cs.head?.any isDigit) then (ungrouped? cs).map (c :: ·) else none
  | c :: cs => if c = '_' then none else (ungrouped? cs).map (c :: ·)

/-- The sign in front of a text, true for minus, and what follows it. -/
def splitSign : Text → Bool × Text
  | '-' :: cs => (true, cs)
  | '+' :: cs => (false, cs)
  | cs => (false, cs)

/-- The number that the text after the digits adds to the power of ten: an exponent
mark with digits, or nothing at all. -/
def exponentValue? : Text → Option Int
  | [] => some 0
  | c :: cs =>
      let (negative, digits) := splitSign cs
      if (c = 'e' ∨ c = 'E') ∧ digits ≠ [] ∧ digits.all isDigit then
        some (if negative then -digitsValue digits else digitsValue digits)
      else none

/-- The fraction in front of a text, and what follows it. -/
def splitFraction : Text → Text × Text
  | '.' :: cs => (digits cs, cs.dropWhile isDigit)
  | cs => ([], cs)

/-- An unsigned number in decimal notation. -/
def decimalNumeral? (negative : Bool) (cs : Text) : Option Numeral :=
  let whole := digits cs
  let (fraction, rest) := splitFraction (cs.dropWhile isDigit)
  if whole ++ fraction = [] then none
  else (exponentValue? rest).map fun e =>
    .finite negative (whole ++ fraction) (e - fraction.length)

/-- The words for infinity, in lower case. -/
def infinityWords : List Text := ["inf".toList, "infinity".toList]

/-- The words for what is no number, in lower case. -/
def notANumberWords : List Text := ["nan".toList]

/-- An unsigned number as a word or in decimal notation. -/
def unsignedNumeral? (negative : Bool) (cs : Text) : Option Numeral :=
  let lower := cs.map Char.toLower
  if lower ∈ infinityWords then some (.infinite negative)
  else if lower ∈ notANumberWords then some (.notANumber negative)
  else decimalNumeral? negative cs

/-! ## Whole texts -/

/-- The numeral that a text is. -/
def numeral? (cs : Text) : Option Numeral := do
  let (negative, unsigned) := splitSign (← ungrouped? ((trimmed cs).map plainDigit))
  unsignedNumeral? negative unsigned

/-- The number that a text is taken for. -/
def readNumber? (cs : Text) : Option Binary64 := (numeral? cs).map Numeral.value

end Spruce
