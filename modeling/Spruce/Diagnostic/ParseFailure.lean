import Spruce.Source.Excerpt
import Spruce.Source.Position
import Spruce.Text.Quoted
import Spruce.Token.Terminal

set_option autoImplicit false

/-!
# Parse failures

Why a text is no program or expression: a character that starts no token, a token
that nothing goes on with, an end that comes too early, or a sign that does not
touch its number. A failure tells where, and what was expected there.

Main definitions: `Cause`, `ParseFailure`, and its wording
`ParseFailure.message`.
-/

namespace Spruce

/-- Why a text is not accepted. -/
inductive Cause where
  | unrecognised (c : Char)
  | unexpected (t : Terminal)
  | unexpectedEnd
  | spaceAfterSign (sign : Text)
  deriving DecidableEq, Repr

/-- The wording of a cause. -/
def Cause.message : Cause → String
  | unrecognised c => "unrecognised character " ++ String.ofList (quotedChars [c])
  | unexpected t => "unexpected " ++ t.description
  | unexpectedEnd => "unexpected end of input"
  | spaceAfterSign sign => "space after the sign '" ++ String.ofList sign ++ "'"

/-- Why and where a text is not accepted. The expected terminals are in the order
of their descriptions. -/
structure ParseFailure where
  cause : Cause
  position : Position
  expected : List Terminal
  excerpt : Option Text
  filename : Option String
  deriving DecidableEq, Repr

namespace ParseFailure

/-- The descriptions of what was expected. -/
def descriptions (e : ParseFailure) : List String := e.expected.map Terminal.description

/-- The excerpt on lines of its own, if there is one. -/
def excerptLines (e : ParseFailure) : String :=
  match e.excerpt with
  | none => ""
  | some text => String.ofList ('\n' :: text)

/-- The wording of a failure. -/
def message (e : ParseFailure) : String :=
  e.position.located e.filename ++ ": " ++ e.cause.message ++ "; expected one of: " ++
    ", ".intercalate e.descriptions ++ e.excerptLines

end ParseFailure

end Spruce
