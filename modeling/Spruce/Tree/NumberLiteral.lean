import Spruce.Diagnostic.Fault
import Spruce.Number.Literal
import Spruce.Number.Reading
import Spruce.Tree.Traversal

set_option autoImplicit false

/-!
# Number literals of a tree

A number literal keeps the pieces it was written in. Its text is made of them, and
its value is the number that the text is taken for; the pieces of a literal made by
hand may make a text that is no number.

Main definitions: `numberText`, `Node.literalText?`, and `Walk.literals`, the
literals of a walk with their values.
-/

namespace Spruce

/-! ## The text of a literal -/

/-- A piece of a number literal that may be absent. -/
def Value.optionalDisplay : Value → Option Text
  | .absent => none
  | v => some v.display

/-- The text of a number literal with the given pieces. -/
def numberText (sign integer fraction exponent : Value) : Text :=
  literalText sign.display integer.display fraction.optionalDisplay exponent.optionalDisplay

/-- The text of a node that is a number literal. -/
def Node.literalText? : Node → Option Text
  | .number _ sign integer fraction exponent => some (numberText sign integer fraction exponent)
  | _ => none

/-! ## Values of literals -/

/-- The text of a number literal with its value. -/
structure Literal where
  text : Text
  value : Binary64
  deriving DecidableEq, Repr

/-- The literal with the given text. -/
def Literal.ofText (text : Text) : Except Fault Literal :=
  match readNumber? text with
  | none => .error (.notANumber text)
  | some x => .ok ⟨text, x⟩

/-- What a node met by a walk is as a literal, before the walk goes on to its
children. -/
def Node.literal? (n : Node) : Except Fault (Option Literal) := do
  let literal ← n.literalText?.mapM Literal.ofText
  n.checkFields
  pure literal

/-- The number literals met by a walk, with their values. -/
def Walk.literals (w : Walk) : Except Fault (List Literal) := do
  let literals ← w.nodes.mapM Node.literal?
  let _ ← w.allNodes
  pure (literals.filterMap id)

end Spruce
