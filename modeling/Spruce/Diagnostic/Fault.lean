import Spruce.Tree.Description

set_option autoImplicit false

/-!
# Faults

A tree made by hand may hold anything, so an operation on it may meet a value it
cannot work on. A fault says which.

Main definitions: `Fault`, and `Fault.message`, its wording; `Value.toElements`, for
a value that has to be a sequence; and `refuseCharacters`, for a text in the place of
a sequence.
-/

namespace Spruce

/-- Why an operation on a tree was refused. -/
inductive Fault where
  /-- A value that stands for a term and is none. -/
  | notATerm (v : Value)
  /-- A value that stands for a top-level item and is none. -/
  | notATopLevelItem (v : Value)
  /-- A value that stands for a statement and is none. -/
  | notAStatement (v : Value)
  /-- A value that is no node. -/
  | notANode (v : Value)
  /-- A number literal whose text is taken for no number. -/
  | notANumber (text : Text)
  /-- A chain with an operator that has no operand after it. -/
  | missingOperand
  /-- A chain whose terms, a sequence of the given kind of value, are none. -/
  | noFirstTerm (terms : Value)
  /-- A value of one kind where another kind is needed. -/
  | misplaced (expected : String) (v : Value)

/-- The kind of sequence that a value is, by name. -/
def Value.sequenceName : Value → String
  | .sequence .tuple _ => "tuple"
  | .sequence .list _ => "list"
  | _ => "string"

/-- The wording of a fault. -/
def Fault.message : Fault → String
  | notATerm v => String.ofList ("Not a term: ".toList ++ v.describe)
  | notATopLevelItem v => String.ofList ("Not a top-level item: ".toList ++ v.describe)
  | notAStatement v => String.ofList ("Not a statement: ".toList ++ v.describe)
  | notANode v => String.ofList ("Not a parse tree node: ".toList ++ v.describe)
  | notANumber text =>
      String.ofList ("could not convert string to float: ".toList ++ quotedChars text)
  | missingOperand => "list index out of range"
  | noFirstTerm terms => terms.sequenceName ++ " index out of range"
  | misplaced expected v =>
      String.ofList ("Not a ".toList ++ expected.toList ++ [':', ' '] ++ v.describe)

/-- The elements of a value that has to be a sequence. -/
def Value.toElements (v : Value) : Except Fault (List Value) :=
  match v with
  | .sequence _ items => .ok items
  | .text s => .ok (characters s)
  | v => .error (.misplaced "sequence" v)

/-- What comes of the elements of a text where no character will do: nothing when
there are none, and otherwise the fault of the first. -/
def refuseCharacters {α : Type} (fault : Value → Fault) (s : String) : Except Fault (List α) :=
  match Value.characters s with
  | [] => .ok []
  | c :: _ => .error (fault c)

end Spruce
