import Spruce.Text.Basic
import Spruce.Tree.Basic

set_option autoImplicit false

/-!
# Outlines

An outline shows a tree compactly on a terminal: the name of a node's type in
green, then its fields but for the span, and the rule of a fragment on a red
background. Members of the vocabularies are shown by their names alone.

Main definitions: `Outline`, and `Node.outline` and `Value.outline`.
-/

namespace Spruce

/-- What an outline is made of. -/
inductive Outline where
  | absent
  | truth (b : Bool)
  | whole (n : Int)
  | real (x : Binary64)
  | text (s : String)
  /-- Text in a colour, given by the terminal's number for it. -/
  | coloured (colour text : String)
  | sequence (kind : SequenceKind) (items : List Outline)
  | record (fields : List (String × Outline))

/-- Text in a colour as a terminal takes it: the code that turns the colour on,
the text, and the code that turns colours off. -/
def colouredText (colour text : String) : Text :=
  '\x1b' :: '[' :: colour.toList ++ 'm' :: text.toList ++ ['\x1b', '[', '0', 'm']

/-- The colour of type names. -/
def typeNameColour : String := "92"

/-- The colour of fragments. -/
def fragmentColour : String := "41"

/-- A type name, with its fields if it has any. -/
def outlineFields (typeName : String) : List (String × Outline) → Outline
  | [] => .coloured typeNameColour typeName
  | fields => .sequence .tuple [.coloured typeNameColour typeName, .record fields]

mutual

/-- The outline of a node. -/
def Node.outline : Node → Outline
  | ⟨type, _, fields⟩ => outlineFields type.name (type.fieldNames.zip (outlineAll fields))
termination_by structural n => n

/-- The outline of a value. -/
def Value.outline : Value → Outline
  | .absent => .absent
  | .truth b => .truth b
  | .whole n => .whole n
  | .real x => .real x
  | .text s => .text s
  | .operator o => .text o.label
  | .operation o => .text o.label
  | .targetKind k => .text k.label
  | .sequence kind items => .sequence kind (outlineAll items)
  | .fragment rule parts =>
      .sequence .tuple [.coloured fragmentColour rule, .sequence .list (outlineAll parts)]
  | .node n => n.outline
termination_by structural v => v

/-- The outlines of some values. -/
def outlineAll : List Value → List Outline
  | [] => []
  | v :: vs => v.outline :: outlineAll vs
termination_by structural vs => vs

end

end Spruce
