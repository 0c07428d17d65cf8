import Spruce.Text.Unicode

set_option autoImplicit false

/-!
# Quoted text

The quoted form of a text stands between two single quotes, or between two
double quotes when the text holds a single quote and no double quote. The quote
in use and the backslash are escaped by a backslash; tab, line feed and carriage
return have letters of their own; every other character that is not printable is
written by its code point in lower-case hexadecimal.

Main definitions: `quoteFor` chooses the quote, `escape` writes one character and
`quotedChars` the whole text.
-/

namespace Spruce

/-- A code point after a backslash: two, four or eight hexadecimal digits,
whichever is the fewest that hold it. -/
def escapeCode (code : Nat) : Text :=
  if code < 0x100 then '\\' :: 'x' :: hexDigits 2 code
  else if code < 0x10000 then '\\' :: 'u' :: hexDigits 4 code
  else '\\' :: 'U' :: hexDigits 8 code

/-- One character of a text quoted by `quote`. -/
def escape (quote c : Char) : Text :=
  if c = quote ∨ c = '\\' then ['\\', c]
  else if c = '\t' then ['\\', 't']
  else if c = '\n' then ['\\', 'n']
  else if c = '\r' then ['\\', 'r']
  else if isPrintable c then [c]
  else escapeCode c.toNat

/-- The quote of a text: single, unless only single quotes occur in it. -/
def quoteFor (cs : Text) : Char :=
  if '\'' ∈ cs ∧ '"' ∉ cs then '"' else '\''

/-- The quoted form of a text. -/
def quotedChars (cs : Text) : Text :=
  quoteFor cs :: cs.flatMap (escape (quoteFor cs)) ++ [quoteFor cs]

end Spruce
