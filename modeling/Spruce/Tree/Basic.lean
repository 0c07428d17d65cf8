import Spruce.Number.Binary64
import Spruce.Source.Position
import Spruce.Tree.NodeType
import Spruce.Tree.Operator

set_option autoImplicit false

/-!
# Trees

A tree is a node with a type, a span, which may be unknown, and the contents of the
fields of its type. A tree that was read has in each field what the field is meant
for, from the whole program down to names and numbers. A tree made by hand is not
held to that: its spans are spans, but any field may hold any value.

Most operations on trees refuse a value that they cannot work on, one that is no
sequence where they need its elements included (`Value.toElements`). `Value.elements`,
`Node.pairs`, `Node.children` and `Value.walk` are views that refuse nothing: to them
such a value has no elements.

An expression is kept flat, as terms with operators between them; `binary` nodes
come from grouping it.

Main definitions: `Node` and `Value`; a constructor for the nodes of each type,
which can be matched against; and `Value.elements`, the view of a value as a
sequence.
-/

namespace Spruce

/-! ## Nodes and values -/

/-- The two kinds of sequence that a field may hold. Trees that were read hold
tuples only. -/
inductive SequenceKind where
  | tuple
  | list
  deriving DecidableEq, Repr

mutual

/-- A node of a tree. -/
structure Node where
  type : NodeType
  span : Option Span
  fields : List Value

/-- What a field may hold. -/
inductive Value where
  /-- Nothing, where something is optional. -/
  | absent
  | truth (b : Bool)
  | whole (n : Int)
  | real (x : Binary64)
  | text (s : String)
  | operator (o : Operator)
  | operation (o : Operation)
  | targetKind (k : TargetKind)
  | sequence (kind : SequenceKind) (items : List Value)
  /-- Part of a text that has not been made into a node, by the rule it follows. -/
  | fragment (rule : String) (parts : List Value)
  | node (n : Node)

end

/-! ## Nodes by type -/

namespace Node

/-- Top-level items in source order. -/
@[match_pattern] def program (span : Option Span) (items : Value) : Node :=
  ⟨.program, span, [items]⟩

/-- Function with the names of its parameters. -/
@[match_pattern] def functionDecl (span : Option Span) (name parameters block : Value) : Node :=
  ⟨.functionDecl, span, [name, parameters, block]⟩

/-- Algebraic data type with the names of its parameters and its constructors. -/
@[match_pattern] def typeDecl (span : Option Span) (name parameters options : Value) : Node :=
  ⟨.typeDecl, span, [name, parameters, options]⟩

/-- One constructor of a data type. -/
@[match_pattern] def typeOption (span : Option Span) (constructor arguments : Value) : Node :=
  ⟨.typeOption, span, [constructor, arguments]⟩

/-- Type name, possibly applied to type arguments. -/
@[match_pattern] def typeExpr (span : Option Span) (name arguments : Value) : Node :=
  ⟨.typeExpr, span, [name, arguments]⟩

/-- Left-hand side of an assignment. -/
@[match_pattern] def target (span : Option Span) (kind name : Value) : Node :=
  ⟨.target, span, [kind, name]⟩

/-- Assignment of an expression or a case construct. -/
@[match_pattern] def assign (span : Option Span) (destination value : Value) : Node :=
  ⟨.assign, span, [destination, value]⟩

/-- Statements, and the expression that is the value of them all, if any. -/
@[match_pattern] def body (span : Option Span) (statements trailing : Value) : Node :=
  ⟨.body, span, [statements, trailing]⟩

/-- Left-hand side of a case arm. -/
@[match_pattern] def casePattern (span : Option Span) (name bindings : Value) : Node :=
  ⟨.casePattern, span, [name, bindings]⟩

/-- One arm of a case construct, with an expression or a body. -/
@[match_pattern] def caseOption (span : Option Span) (pattern value : Value) : Node :=
  ⟨.caseOption, span, [pattern, value]⟩

/-- Case construct over a scrutinee. -/
@[match_pattern] def caseOf (span : Option Span) (scrutinee options : Value) : Node :=
  ⟨.caseOf, span, [scrutinee, options]⟩

/-- Terms joined by operators: the operator at a place stands between the term at
that place and the next. -/
@[match_pattern] def expr (span : Option Span) (terms operators : Value) : Node :=
  ⟨.expr, span, [terms, operators]⟩

/-- Function call. -/
@[match_pattern] def call (span : Option Span) (callee arguments : Value) : Node :=
  ⟨.call, span, [callee, arguments]⟩

/-- Name used as a value. -/
@[match_pattern] def identifier (span : Option Span) (name : Value) : Node :=
  ⟨.identifier, span, [name]⟩

/-- Number in the pieces it was written in. The sign is empty, plus or minus; a
fraction is absent when there is no decimal point, and the exponent includes its
sign. -/
@[match_pattern] def number (span : Option Span) (sign integer fraction exponent : Value) : Node :=
  ⟨.number, span, [sign, integer, fraction, exponent]⟩

/-- Operation on two operands. -/
@[match_pattern] def binary (span : Option Span) (operation left right : Value) : Node :=
  ⟨.binary, span, [operation, left, right]⟩

/-- An expression node. -/
def isExpr : Node → Bool
  | expr .. => true
  | _ => false

/-- A body. -/
def isBody : Node → Bool
  | body .. => true
  | _ => false

end Node

/-! ## Sequences -/

namespace Value

/-- The tuple of the given values. -/
def tuple (vs : List Value) : Value := .sequence .tuple vs

/-- The tuple of the given nodes. -/
def nodes (ns : List Node) : Value := .tuple (ns.map .node)

/-- The tuple of the given names. -/
def names (ss : List String) : Value := .tuple (ss.map .text)

/-- The tuple of the given operators. -/
def operators (os : List Operator) : Value := .tuple (os.map .operator)

/-- A node that may be absent. -/
def optionalNode : Option Node → Value
  | none => .absent
  | some n => .node n

/-- A text that may be absent. -/
def optionalText : Option String → Value
  | none => .absent
  | some s => .text s

/-- The characters of a text, each a text of its own. -/
def characters (s : String) : List Value := s.toList.map fun c => .text (String.singleton c)

/-- The elements that a value shows when it is taken as a sequence: those of a tuple or
list, and the characters of a text. What is no sequence shows none. -/
def elements : Value → List Value
  | sequence _ items => items
  | text s => characters s
  | _ => []

/-- A value that counts as nothing: absent, false, zero, or a sequence without
elements. -/
def isEmpty : Value → Bool
  | absent => true
  | truth b => !b
  | whole n => n = 0
  | real x => x.isZero
  | text s => s.isEmpty
  | sequence _ items => items.isEmpty
  | _ => false

/-- Nothing. -/
def isAbsent : Value → Bool
  | absent => true
  | _ => false

/-- The node that a value is, if it is one. -/
def node? : Value → Option Node
  | node n => some n
  | _ => none

end Value

/-- The terms of an expression that have an operator after them, each with that
operator. -/
def Node.pairs : Node → List (Value × Value)
  | .expr _ terms operators => terms.elements.zip operators.elements
  | _ => []

end Spruce
