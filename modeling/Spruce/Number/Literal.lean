import Spruce.Token.Lexer

set_option autoImplicit false

/-!
# Number literals

A number literal is made of pieces: a sign, an integer part, a fraction after a
decimal point, and an exponent after the letter `e`. Its text is put together from
them, and a numeral that was read is taken apart into those that it has.

Main definitions: `literalText` and `numeralPieces`.
-/

namespace Spruce

/-! ## The text of a literal -/

/-- A piece of a literal with its mark before it; nothing when it is absent. -/
def markedPiece (mark : Char) : Option Text → Text
  | none => []
  | some piece => mark :: piece

/-- The text of a number literal. -/
def literalText (sign integer : Text) (fraction exponent : Option Text) : Text :=
  sign ++ integer ++ markedPiece '.' fraction ++ markedPiece 'e' exponent

/-! ## The pieces of a numeral -/

/-- The unsigned pieces of a number literal. -/
structure NumeralPieces where
  integer : String
  fraction : Option String
  exponent : Option String
  deriving DecidableEq, Repr

/-- What follows an exponent mark. -/
def exponentPiece : Text → Option String
  | [] => none
  | _ :: cs => some (String.ofList cs)

/-- The pieces of a numeral. -/
def numeralPieces (cs : Text) : NumeralPieces :=
  let afterInteger := cs.dropWhile isDigit
  let integer := String.ofList (digits cs)
  match afterInteger with
  | '.' :: ds => ⟨integer, some (String.ofList (digits ds)), exponentPiece (ds.dropWhile isDigit)⟩
  | ds => ⟨integer, none, exponentPiece ds⟩

end Spruce
