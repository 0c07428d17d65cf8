import Spruce.Proofs.Token.Cutting
import Spruce.Tree.Basic

set_option autoImplicit false

/-!
# Grammatical trees

A tree is grammatical if every field of every node holds what the field is meant for: names that
are names, numbers in the pieces of a numeral, operators between terms, and children of the kinds
that can stand in their place, at least one where the language asks for one. Spans may be anything.

One tree that can be made by hand is left out although each of its fields holds what it is meant
for: a body whose value is a lone call, which reads as a statement.

Main definition: `Grammatical`, by the place that a node stands in.
-/

namespace Spruce

/-- A text that is a name. -/
def IsName (s : String) : Prop := Text.isName s.toList = true

instance : DecidablePred IsName := fun s =>
  inferInstanceAs (Decidable (Text.isName s.toList = true))

namespace Node

/-- A call. -/
def isCall : Node → Bool
  | call .. => true
  | _ => false

/-- An expression of a single term that is a call. -/
def isLoneCall : Node → Bool
  | expr _ terms _ =>
      match terms.elements with
      | [.node n] => n.isCall
      | _ => false
  | _ => false

end Node

/-- The places that a node can stand in. -/
inductive Place where
  | program
  | item
  | typeOption
  | typeExpr
  | body
  | statement
  | assignment
  /-- What may be assigned. -/
  | assigned
  | caseOf
  | caseOption
  /-- What an arm may lead to. -/
  | arm
  | expression
  | term
  | call
  deriving DecidableEq, Repr

/-- The nodes that may stand in a place, with whatever is below them. -/
inductive Grammatical : Place → Node → Prop where
  | program {span : Option Span} {items : List Node} (hitems : ∀ n ∈ items, Grammatical .item n) :
      Grammatical .program (.program span (.nodes items))
  | functionDecl {span : Option Span} {name : String} {parameters : List String} {block : Node}
      (hname : IsName name) (hparameters : ∀ s ∈ parameters, IsName s)
      (hblock : Grammatical .body block) :
      Grammatical .item (.functionDecl span (.text name) (.names parameters) (.node block))
  | typeDecl {span : Option Span} {name : String} {parameters : List String}
      {options : List Node} (hname : IsName name) (hparameters : ∀ s ∈ parameters, IsName s)
      (hne : options ≠ []) (hoptions : ∀ n ∈ options, Grammatical .typeOption n) :
      Grammatical .item (.typeDecl span (.text name) (.names parameters) (.nodes options))
  | assignmentItem {n : Node} (h : Grammatical .assignment n) : Grammatical .item n
  | typeOption {span : Option Span} {name : String} {arguments : List Node} (hname : IsName name)
      (harguments : ∀ n ∈ arguments, Grammatical .typeExpr n) :
      Grammatical .typeOption (.typeOption span (.text name) (.nodes arguments))
  | typeExpr {span : Option Span} {name : String} {arguments : List Node} (hname : IsName name)
      (harguments : ∀ n ∈ arguments, Grammatical .typeExpr n) :
      Grammatical .typeExpr (.typeExpr span (.text name) (.nodes arguments))
  | body {span : Option Span} {statements : List Node} {trailing : Option Node}
      (hstatements : ∀ n ∈ statements, Grammatical .statement n)
      (htrailing : ∀ n ∈ trailing, Grammatical .expression n)
      (hcall : ∀ n ∈ trailing, n.isLoneCall = false) :
      Grammatical .body (.body span (.nodes statements) (.optionalNode trailing))
  | assignmentStatement {n : Node} (h : Grammatical .assignment n) : Grammatical .statement n
  | callStatement {n : Node} (h : Grammatical .call n) : Grammatical .statement n
  | caseStatement {n : Node} (h : Grammatical .caseOf n) : Grammatical .statement n
  | assign {span targetSpan : Option Span} {kind : TargetKind} {name : String} {value : Node}
      (hname : IsName name) (hvalue : Grammatical .assigned value) :
      Grammatical .assignment
        (.assign span (.node (.target targetSpan (.targetKind kind) (.text name))) (.node value))
  | assignedCase {n : Node} (h : Grammatical .caseOf n) : Grammatical .assigned n
  | assignedExpression {n : Node} (h : Grammatical .expression n) : Grammatical .assigned n
  | caseOf {span : Option Span} {scrutinee : Node} {options : List Node}
      (hscrutinee : Grammatical .expression scrutinee) (hne : options ≠ [])
      (hoptions : ∀ n ∈ options, Grammatical .caseOption n) :
      Grammatical .caseOf (.caseOf span (.node scrutinee) (.nodes options))
  | caseOption {span patternSpan : Option Span} {name : String} {bindings : List String}
      {value : Node} (hname : IsName name) (hbindings : ∀ s ∈ bindings, IsName s)
      (hvalue : Grammatical .arm value) :
      Grammatical .caseOption
        (.caseOption span (.node (.casePattern patternSpan (.text name) (.names bindings)))
          (.node value))
  | armExpression {n : Node} (h : Grammatical .expression n) : Grammatical .arm n
  | armBody {n : Node} (h : Grammatical .body n) : Grammatical .arm n
  | expr {span : Option Span} {terms : List Node} {operators : List Operator}
      (hlength : terms.length = operators.length + 1)
      (hterms : ∀ n ∈ terms, Grammatical .term n) :
      Grammatical .expression (.expr span (.nodes terms) (.operators operators))
  | callTerm {n : Node} (h : Grammatical .call n) : Grammatical .term n
  | expressionTerm {n : Node} (h : Grammatical .expression n) : Grammatical .term n
  | identifier {span : Option Span} {name : String} (hname : IsName name) :
      Grammatical .term (.identifier span (.text name))
  | number {span : Option Span} {sign integer : String} {fraction exponent : Option String}
      (hsign : sign = "" ∨ sign = "+" ∨ sign = "-")
      (hpieces : IsNumeral integer.toList (fraction.map String.toList)
        (exponent.map String.toList)) :
      Grammatical .term (.number span (.text sign) (.text integer) (.optionalText fraction)
        (.optionalText exponent))
  | call {span : Option Span} {name : String} {arguments : List Node} (hname : IsName name)
      (harguments : ∀ n ∈ arguments, Grammatical .expression n) :
      Grammatical .call (.call span (.text name) (.nodes arguments))

/-- The left-hand side of an assignment. -/
def Node.IsTarget (n : Node) : Prop :=
  ∃ span kind name, IsName name ∧ n = .target span (.targetKind kind) (.text name)

/-- The left-hand side of an arm. -/
def Node.IsPattern (n : Node) : Prop :=
  ∃ span name bindings, IsName name ∧ (∀ s ∈ bindings, IsName s) ∧
    n = .casePattern span (.text name) (.names bindings)

/-- A node of a grammatical tree, in whatever place. -/
def Node.InGrammatical (n : Node) : Prop :=
  (∃ place, Grammatical place n) ∨ n.IsTarget ∨ n.IsPattern

end Spruce
