import Spruce.Grammar.Meaning
import Spruce.Tree.Equality

set_option autoImplicit false

/-!
# Equality of trees field by field

Two nodes of one type are equal if their fields are, whatever their spans. The leaves of a tree
that was read, texts, operators and the like, are equal to themselves; its sequences are equal if
their elements are.
-/

namespace Spruce

/-! ## Values -/

theorem Value.equal_text (s : String) : (Value.text s).equal (.text s) = true :=
  decide_eq_true rfl

theorem Value.equal_operator (o : Operator) : (Value.operator o).equal (.operator o) = true :=
  decide_eq_true rfl

theorem Value.equal_targetKind (k : TargetKind) :
    (Value.targetKind k).equal (.targetKind k) = true := decide_eq_true rfl

theorem Value.equal_optionalText (s : Option String) :
    (Value.optionalText s).equal (.optionalText s) = true := by
  cases s with
  | none => rfl
  | some s => exact decide_eq_true rfl

theorem equalAll_map_self {α : Type} {f : α → Value} (h : ∀ a, (f a).equal (f a) = true)
    (as : List α) : equalAll (as.map f) (as.map f) = true := by
  induction as with
  | nil => rfl
  | cons a as ih => exact Bool.and_eq_true_iff.2 ⟨h a, ih⟩

theorem Value.equal_tuple {vs ws : List Value} (h : equalAll vs ws = true) :
    (Value.tuple vs).equal (.tuple ws) = true := by
  simp [Value.tuple, Value.equal, h]

theorem Value.equal_names (names : List String) :
    (Value.names names).equal (.names names) = true :=
  Value.equal_tuple (equalAll_map_self Value.equal_text names)

theorem Value.equal_operators (operators : List Operator) :
    (Value.operators operators).equal (.operators operators) = true :=
  Value.equal_tuple (equalAll_map_self Value.equal_operator operators)

/-! ## Nodes in sequences -/

/-- Nodes that are equal one by one. -/
def NodesEqual (ms ns : List Node) : Prop := equalAll (ms.map .node) (ns.map .node) = true

theorem NodesEqual.nil : NodesEqual [] [] := rfl

theorem NodesEqual.cons {m n : Node} {ms ns : List Node} (h : m.equal n = true)
    (hs : NodesEqual ms ns) : NodesEqual (m :: ms) (n :: ns) := Bool.and_eq_true_iff.2 ⟨h, hs⟩

theorem NodesEqual.equal_nodes {ms ns : List Node} (h : NodesEqual ms ns) :
    (Value.nodes ms).equal (.nodes ns) = true := Value.equal_tuple h

/-- Optional nodes that are equal, or both absent. -/
def OptionalEqual : Option Node → Option Node → Prop
  | none, none => True
  | some m, some n => m.equal n = true
  | _, _ => False

theorem OptionalEqual.equal_optionalNode {m n : Option Node} (h : OptionalEqual m n) :
    (Value.optionalNode m).equal (.optionalNode n) = true := by
  cases m <;> cases n <;> first | exact h | exact h.elim | rfl

/-- Chains of equal terms with the same operators. -/
def Chain.Equal (c : Chain) (terms : List Node) (operators : List Operator) : Prop :=
  NodesEqual c.terms terms ∧ c.operators = operators

/-- Lines of equal statements with equal values. -/
def Lines.Equal (lines : Lines) (statements : List Node) (trailing : Option Node) : Prop :=
  NodesEqual lines.statements statements ∧ OptionalEqual lines.trailing trailing

/-! ## Nodes -/

variable {span span' : Option Span}

theorem Node.equal_of_fields {type : NodeType} {vs ws : List Value} (h : equalAll vs ws = true) :
    Node.equal ⟨type, span, vs⟩ ⟨type, span', ws⟩ = true := by
  simp [Node.equal, h]

theorem equalAll_cons {v w : Value} {vs ws : List Value} (h : v.equal w = true)
    (hs : equalAll vs ws = true) : equalAll (v :: vs) (w :: ws) = true :=
  Bool.and_eq_true_iff.2 ⟨h, hs⟩

/-- Nodes of one type with the same name and equal nodes in a sequence. -/
theorem Node.equal_of_nodes {type : NodeType} {ms ns : List Node} (name : String)
    (h : NodesEqual ms ns) : Node.equal ⟨type, span, [.text name, .nodes ms]⟩
      ⟨type, span', [.text name, .nodes ns]⟩ = true :=
  Node.equal_of_fields (equalAll_cons (Value.equal_text name) (equalAll_cons h.equal_nodes rfl))

theorem Chain.Equal.node {c : Chain} {terms : List Node} {operators : List Operator}
    (h : c.Equal terms operators) :
    (c.node span).equal (.expr span' (.nodes terms) (.operators operators)) = true := by
  obtain ⟨hterms, rfl⟩ := h
  exact Node.equal_of_fields (equalAll_cons hterms.equal_nodes
    (equalAll_cons (Value.equal_operators _) rfl))

theorem Lines.Equal.node {lines : Lines} {statements : List Node} {trailing : Option Node}
    (h : lines.Equal statements trailing) :
    (lines.node span).equal (.body span' (.nodes statements) (.optionalNode trailing)) = true :=
  Node.equal_of_fields (equalAll_cons h.1.equal_nodes
    (equalAll_cons h.2.equal_optionalNode rfl))

end Spruce
