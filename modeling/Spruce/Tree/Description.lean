import Spruce.Number.Shortest
import Spruce.Text.Quoted
import Spruce.Tree.Basic

set_option autoImplicit false

/-!
# Descriptions of trees

The description of a node names its type and gives all its fields but the span,
each with its name: `Identifier(name='a')`. Tuples stand in parentheses, one of a
single element with a comma after it, and lists in brackets. Fault messages show
the value at fault this way.

Main definitions: `Node.describe` and `Value.describe`; `Value.display`, which
shows a text as it is and a member of a vocabulary by its name.
-/

namespace Spruce

/-! ## Descriptions of the parts -/

/-- A tuple of described elements. -/
def describeTuple : List Text → Text
  | [item] => '(' :: item ++ [',', ')']
  | items => '(' :: commaSeparated items ++ [')']

/-- A list of described elements. -/
def describeList (items : List Text) : Text := '[' :: commaSeparated items ++ [']']

/-- A sequence of described elements. -/
def SequenceKind.describe : SequenceKind → List Text → Text
  | .tuple => describeTuple
  | .list => describeList

/-- A type name with described fields. -/
def describeFields (typeName : String) (fields : List (String × Text)) : Text :=
  typeName.toList ++
    '(' :: commaSeparated (fields.map fun f => f.1.toList ++ '=' :: f.2) ++ [')']

/-- A string between quotes. -/
def describeString (s : String) : Text := quotedChars s.toList

/-- What stands for a value that is absent. -/
def describeAbsent : Text := "None".toList

/-- A truth value. -/
def describeTruth (b : Bool) : Text := if b then "True".toList else "False".toList

/-- The name of a member of a vocabulary. -/
def memberName (vocabulary label : String) : Text :=
  vocabulary.toList ++ '.' :: label.toList

/-- A member of a vocabulary, with the text that identifies it there. -/
def describeMember (name identity : Text) : Text := '<' :: name ++ ':' :: ' ' :: identity ++ ['>']

/-- The name of an operator in its vocabulary. -/
def Operator.fullName (o : Operator) : Text := memberName "Operator" o.label

/-- The name of an assignment form in its vocabulary. -/
def TargetKind.fullName (k : TargetKind) : Text := memberName "TargetKind" k.label

/-- The name of an operation in its vocabulary. -/
def Operation.fullName (o : Operation) : Text := memberName "BinaryOp" o.label

/-- An operator, with its sign. -/
def Operator.describe (o : Operator) : Text := describeMember o.fullName (describeString o.sign)

/-- An assignment form, with its number. -/
def TargetKind.describe (k : TargetKind) : Text := describeMember k.fullName (naturalText k.number)

/-- An operation, with its number. -/
def Operation.describe (o : Operation) : Text := describeMember o.fullName (naturalText o.number)

/-! ## Descriptions of nodes and values -/

mutual

/-- The description of a node. -/
def Node.describe : Node → Text
  | ⟨type, _, fields⟩ => describeFields type.name (type.fieldNames.zip (describeAll fields))
termination_by structural n => n

/-- The description of a value. -/
def Value.describe : Value → Text
  | .absent => describeAbsent
  | .truth b => describeTruth b
  | .whole n => integerText n
  | .real x => x.text
  | .text s => describeString s
  | .operator o => o.describe
  | .operation o => o.describe
  | .targetKind k => k.describe
  | .sequence kind items => kind.describe (describeAll items)
  | .fragment rule parts =>
      "Tree(".toList ++ describeString rule ++ [',', ' '] ++
        describeList (describeAll parts) ++ [')']
  | .node n => n.describe
termination_by structural v => v

/-- The descriptions of some values. -/
def describeAll : List Value → List Text
  | [] => []
  | v :: vs => v.describe :: describeAll vs
termination_by structural vs => vs

end

/-- A value as it stands within other text: texts and the names of vocabulary
members as they are, and other values by their descriptions. -/
def Value.display : Value → Text
  | .text s => s.toList
  | .operator o => o.fullName
  | .operation o => o.fullName
  | .targetKind k => k.fullName
  | v => v.describe

end Spruce
