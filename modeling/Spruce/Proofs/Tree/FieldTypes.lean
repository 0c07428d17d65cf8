import Mathlib.Data.List.Forall2
import Spruce.Tree.Basic

set_option autoImplicit false

/-!
# Trees whose fields hold what they are declared with

Each field of a node is declared with a type: a text, a member of a vocabulary, a node, or one of
these as an option or in a tuple. Where only nodes of some types are meant, a node of any type will
do here. A value that has a type may have any texts in it.

What a relation says of two values of one type follows from what it says of their parts
(`HasType.related`), which is how two values of the same type are compared in this library.

Main definitions: `FieldType`, `HasType`, `Node.HasFieldTypes` and `IsComponentwise`.
-/

namespace Spruce

/-! ## Types of fields -/

/-- What a field may be declared with. -/
inductive FieldType where
  | text
  | operator
  | operation
  | targetKind
  | node
  | optional (t : FieldType)
  | tuple (t : FieldType)
  deriving DecidableEq, Repr

namespace NodeType

/-- What the fields of a type are declared with, in order. -/
def fieldTypes : NodeType → List FieldType
  | program => [.tuple .node]
  | functionDecl => [.text, .tuple .text, .node]
  | typeDecl => [.text, .tuple .text, .tuple .node]
  | typeOption => [.text, .tuple .node]
  | typeExpr => [.text, .tuple .node]
  | target => [.targetKind, .text]
  | assign => [.node, .node]
  | body => [.tuple .node, .optional .node]
  | casePattern => [.text, .tuple .text]
  | caseOption => [.node, .node]
  | caseOf => [.node, .tuple .node]
  | expr => [.tuple .node, .tuple .operator]
  | call => [.text, .tuple .node]
  | identifier => [.text]
  | number => [.text, .text, .optional .text, .optional .text]
  | binary => [.operation, .node, .node]
  | foreign .. => []

/-- The type that the others are derived from, which has no fields. -/
def base : NodeType := .foreign "AstNode" []

/-- The types with declared fields. -/
def declared : List NodeType := base :: known

end NodeType

/-- A value of the type that a field is declared with. -/
inductive HasType : FieldType → Value → Prop where
  | text (s : String) : HasType .text (.text s)
  | operator (o : Operator) : HasType .operator (.operator o)
  | operation (o : Operation) : HasType .operation (.operation o)
  | targetKind (k : TargetKind) : HasType .targetKind (.targetKind k)
  | absent {t : FieldType} : HasType (.optional t) .absent
  | present {t : FieldType} {v : Value} (h : HasType t v) : HasType (.optional t) v
  | tuple {t : FieldType} {vs : List Value} (h : ∀ v ∈ vs, HasType t v) :
      HasType (.tuple t) (.tuple vs)
  | node {type : NodeType} {span : Option Span} {fields : List Value}
      (htype : type ∈ NodeType.declared) (hlength : fields.length = type.fieldTypes.length)
      (hfields : ∀ p ∈ type.fieldTypes.zip fields, HasType p.1 p.2) :
      HasType .node (.node ⟨type, span, fields⟩)

/-- Every field of a node, and of every node below it, holds what it is declared with. -/
def Node.HasFieldTypes (n : Node) : Prop := HasType .node (.node n)

/-! ## Values of one type -/

/-- A relation that holds between values of one type if it does between their parts. Only nodes of
the same type have parts that correspond. -/
structure IsComponentwise (R : Value → Value → Prop) : Prop where
  text (s s' : String) : R (.text s) (.text s')
  operator (o o' : Operator) : R (.operator o) (.operator o')
  operation (o o' : Operation) : R (.operation o) (.operation o')
  targetKind (k k' : TargetKind) : R (.targetKind k) (.targetKind k')
  absent : R .absent .absent
  absent_left {t : FieldType} {v : Value} (h : HasType t v) (hne : v ≠ .absent) : R .absent v
  absent_right {t : FieldType} {v : Value} (h : HasType t v) (hne : v ≠ .absent) : R v .absent
  tuple {t : FieldType} {vs ws : List Value} (hvs : ∀ v ∈ vs, HasType t v)
    (hws : ∀ w ∈ ws, HasType t w) (h : ∀ v ∈ vs, ∀ w ∈ ws, R v w) : R (.tuple vs) (.tuple ws)
  node {type type' : NodeType} {span span' : Option Span} {vs ws : List Value}
    (htype : type ∈ NodeType.declared) (htype' : type' ∈ NodeType.declared)
    (hvs : vs.length = type.fieldTypes.length) (hws : ws.length = type'.fieldTypes.length)
    (h : type = type' → List.Forall₂ R vs ws) :
    R (.node ⟨type, span, vs⟩) (.node ⟨type', span', ws⟩)

theorem forall₂_of_zip {R : Value → Value → Prop} {ts : List FieldType} {vs ws : List Value}
    (hvs : vs.length = ts.length) (hws : ws.length = ts.length)
    (htypes : ∀ p ∈ ts.zip ws, HasType p.1 p.2)
    (h : ∀ p ∈ ts.zip vs, ∀ {w : Value}, HasType p.1 w → R p.2 w) : List.Forall₂ R vs ws := by
  induction ts generalizing vs ws with
  | nil =>
      obtain rfl := List.length_eq_zero_iff.1 hvs
      obtain rfl := List.length_eq_zero_iff.1 hws
      exact .nil
  | cons t ts ih =>
      obtain ⟨v, vs, rfl⟩ := List.exists_cons_of_length_eq_add_one hvs
      obtain ⟨w, ws, rfl⟩ := List.exists_cons_of_length_eq_add_one hws
      rw [List.zip_cons_cons] at htypes h
      obtain ⟨htype, htypes'⟩ := List.forall_mem_cons.1 htypes
      exact .cons (h (t, v) List.mem_cons_self htype) (ih (Nat.succ.inj hvs) (Nat.succ.inj hws)
        htypes' fun p hp => h p (List.mem_cons_of_mem _ hp))

/-- Values of one type are related by a relation that is told by their parts. -/
theorem HasType.related {R : Value → Value → Prop} (hR : IsComponentwise R) {t : FieldType}
    {v w : Value} (hv : HasType t v) (hw : HasType t w) : R v w := by
  induction hv generalizing w with
  | text s =>
      cases hw with
      | text s' => exact hR.text s s'
  | operator o =>
      cases hw with
      | operator o' => exact hR.operator o o'
  | operation o =>
      cases hw with
      | operation o' => exact hR.operation o o'
  | targetKind k =>
      cases hw with
      | targetKind k' => exact hR.targetKind k k'
  | absent =>
      cases hw with
      | absent => exact hR.absent
      | present hw =>
          by_cases hne : w = .absent
          · exact hne ▸ hR.absent
          · exact hR.absent_left hw hne
  | @present t v hv ih =>
      cases hw with
      | absent =>
          by_cases hne : v = .absent
          · exact hne ▸ hR.absent
          · exact hR.absent_right hv hne
      | present hw => exact ih hw
  | tuple hvs ih =>
      cases hw with
      | tuple hws => exact hR.tuple hvs hws fun v hv w hw => ih v hv (hws w hw)
  | node htype hlength _ ih =>
      cases hw with
      | node htype' hlength' hfields' =>
          refine hR.node htype htype' hlength hlength' ?_
          rintro rfl
          exact forall₂_of_zip hlength hlength' hfields' ih

end Spruce
