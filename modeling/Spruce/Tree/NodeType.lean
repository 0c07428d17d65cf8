set_option autoImplicit false

/-!
# Types of nodes

A node is of one of the types of the language, of the type of a grouped operation,
or of a foreign type that is none of these. Its type says which fields it has, and
for each field what its contents mean for the shape of the tree. The span of a node
is not one of its fields: it is always a span or nothing, and no part of the tree.

Main definitions: `NodeType`, its name `NodeType.name` and its fields
`NodeType.fields`, each a `FieldShape`.
-/

namespace Spruce

/-! ## Fields -/

/-- What the contents of a field are to the node that has it. -/
inductive FieldRole where
  /-- A name, a member of a vocabulary or the like, and no part of the tree. -/
  | label
  /-- A child. -/
  | child
  /-- A child, unless absent. -/
  | optionalChild
  /-- A sequence of children. -/
  | children
  /-- Anything: a child if it is a node, and if it is a tuple, then the nodes among
  its elements are children. -/
  | anything
  deriving DecidableEq, Repr

/-- A field: its name, and what its contents are. -/
structure FieldShape where
  name : String
  role : FieldRole
  deriving DecidableEq, Repr

/-! ## Types -/

/-- The types of nodes. -/
inductive NodeType where
  | program
  | functionDecl
  | typeDecl
  | typeOption
  | typeExpr
  | target
  | assign
  | body
  | casePattern
  | caseOption
  | caseOf
  | expr
  | call
  | identifier
  | number
  | binary
  /-- A type that this library does not know, with the names of its fields, none of
  which is that of the span. -/
  | foreign (name : String) (fieldNames : List String)
      (span_not_mem : "span" ∉ fieldNames := by decide)
  deriving DecidableEq, Repr

namespace NodeType

/-- The name of a type in printed trees. -/
def name : NodeType → String
  | program => "Program"
  | functionDecl => "FunctionDecl"
  | typeDecl => "TypeDecl"
  | typeOption => "TypeOption"
  | typeExpr => "TypeExpr"
  | target => "Target"
  | assign => "Assign"
  | body => "Body"
  | casePattern => "CasePattern"
  | caseOption => "CaseOption"
  | caseOf => "Case"
  | expr => "Expr"
  | call => "FnCall"
  | identifier => "Identifier"
  | number => "NumericLiteral"
  | binary => "Binary"
  | foreign name .. => name

/-- The fields of a type, in the order in which nodes hold them. -/
def fields : NodeType → List FieldShape
  | program => [⟨"items", .children⟩]
  | functionDecl => [⟨"name", .label⟩, ⟨"parameters", .label⟩, ⟨"body", .child⟩]
  | typeDecl => [⟨"name", .label⟩, ⟨"parameters", .label⟩, ⟨"options", .children⟩]
  | typeOption => [⟨"constructor", .label⟩, ⟨"arguments", .children⟩]
  | typeExpr => [⟨"name", .label⟩, ⟨"arguments", .children⟩]
  | target => [⟨"kind", .label⟩, ⟨"name", .label⟩]
  | assign => [⟨"target", .child⟩, ⟨"value", .child⟩]
  | body => [⟨"statements", .children⟩, ⟨"trailing", .optionalChild⟩]
  | casePattern => [⟨"name", .label⟩, ⟨"bindings", .label⟩]
  | caseOption => [⟨"pattern", .child⟩, ⟨"value", .child⟩]
  | caseOf => [⟨"scrutinee", .child⟩, ⟨"options", .children⟩]
  | expr => [⟨"terms", .children⟩, ⟨"operators", .label⟩]
  | call => [⟨"callee", .label⟩, ⟨"arguments", .children⟩]
  | identifier => [⟨"name", .label⟩]
  | number =>
      [⟨"sign", .label⟩, ⟨"integer", .label⟩, ⟨"fraction", .label⟩, ⟨"exponent", .label⟩]
  | binary => [⟨"op", .anything⟩, ⟨"left", .anything⟩, ⟨"right", .anything⟩]
  | foreign _ fieldNames _ => fieldNames.map fun name => ⟨name, .anything⟩

/-- The names of the fields of a type. -/
def fieldNames (type : NodeType) : List String := type.fields.map FieldShape.name

/-- The span of a node is not one of its fields, whatever its type. -/
theorem span_not_mem_fieldNames (type : NodeType) : "span" ∉ type.fieldNames := by
  cases type with
  | foreign name names span_not_mem =>
      have hnames : (foreign name names span_not_mem).fieldNames = names := by
        simp [fieldNames, fields, Function.comp_def]
      rwa [hnames]
  | _ => decide

/-- The types of the language, and that of a grouped operation. -/
def known : List NodeType :=
  [program, functionDecl, typeDecl, typeOption, typeExpr, target, assign, body, casePattern,
    caseOption, caseOf, expr, call, identifier, number, binary]

/-- The known type with the given name. -/
def ofName? (name : String) : Option NodeType := known.find? fun t => t.name = name

end NodeType

end Spruce
