import Spruce.Proofs.Precedence.Splitting

set_option autoImplicit false

/-!
# Regrouping terms

A term is regrouped by making a tree of every chain in it, from the innermost outwards. An
expression in parentheses is a chain of its own and enters the one around it as a single operand;
a call keeps its name, and its arguments are regrouped; names and numbers stay as they are.

How a chain becomes a tree is a parameter (`Node.regroup`). Grouping by precedence is regrouping
with chains split at their loosest operation (`group_eq_splitTree`).

Main definitions: `IsTerm`, the terms in which every chain has an operand on either side of each
operator; `Node.regroup`.
-/

namespace Spruce

/-! ## Terms -/

/-- Terms in which every expression has one more term than operators. -/
inductive IsTerm : Node → Prop where
  | expr {span : Option Span} {terms : List Node} {operators : List Operator}
      (hlength : terms.length = operators.length + 1) (hterms : ∀ n ∈ terms, IsTerm n) :
      IsTerm (.expr span (.nodes terms) (.operators operators))
  | call {span : Option Span} {callee : Value} {arguments : List Node}
      (hexprs : ∀ n ∈ arguments, n.isExpr = true) (harguments : ∀ n ∈ arguments, IsTerm n) :
      IsTerm (.call span callee (.nodes arguments))
  | identifier {span : Option Span} {name : Value} : IsTerm (.identifier span name)
  | number {span : Option Span} {sign integer fraction exponent : Value} :
      IsTerm (.number span sign integer fraction exponent)

/-! ## Regrouping -/

/-- The operation that a value in the place of an operator stands for, if it is one. -/
def Value.operation? : Value → Option Operation
  | .operator o => some o.operation
  | _ => none

/-- The tree of operands with operators between them; `n` if there are no operands. -/
def treeOf (chain : Node → List Pair → Node) (n : Node) (operators : Value) : List Node → Node
  | [] => n
  | first :: others => chain first ((operators.elements.filterMap Value.operation?).zip others)

mutual

/-- A term with a tree, made by `chain`, in the place of each expression in it. -/
def Node.regroup (chain : Node → List Pair → Node) : Node → Node
  | .expr span terms operators =>
      treeOf chain (.expr span terms operators) operators (terms.regroupItems chain)
  | .call span callee arguments => .call span callee (.nodes (arguments.regroupItems chain))
  | n => n
termination_by structural n => n

/-- The nodes of a sequence, regrouped. -/
def Value.regroupItems (chain : Node → List Pair → Node) : Value → List Node
  | .sequence _ items => regroupAll chain items
  | _ => []
termination_by structural v => v

/-- The node that a value is, regrouped. -/
def Value.regroup? (chain : Node → List Pair → Node) : Value → Option Node
  | .node n => some (n.regroup chain)
  | _ => none
termination_by structural v => v

/-- The nodes among some values, regrouped. -/
def regroupAll (chain : Node → List Pair → Node) : List Value → List Node
  | [] => []
  | v :: vs => (v.regroup? chain).toList ++ regroupAll chain vs
termination_by structural vs => vs

end

section

variable {chain : Node → List Pair → Node}

theorem regroupItems_nodes (ns : List Node) :
    (Value.nodes ns).regroupItems chain = ns.map (Node.regroup chain) := by
  show regroupAll chain (ns.map .node) = _
  induction ns with
  | nil => rfl
  | cons n ns ih => simpa [regroupAll, Value.regroup?] using ih

theorem filterMap_operation_operators (operators : List Operator) :
    (Value.operators operators).elements.filterMap Value.operation? =
      operators.map Operator.operation := by
  show (operators.map Value.operator).filterMap Value.operation? = _
  induction operators with
  | nil => rfl
  | cons o os ih => simpa [Value.operation?] using ih

/-- An expression with a term becomes the tree of its regrouped terms. -/
theorem regroup_expr (span : Option Span) (first : Node) (others : List Node)
    (operators : List Operator) :
    (Node.expr span (.nodes (first :: others)) (.operators operators)).regroup chain =
      chain (first.regroup chain)
        ((operators.map Operator.operation).zip (others.map (Node.regroup chain))) := by
  rw [Node.expr, Node.regroup, regroupItems_nodes, List.map_cons, treeOf,
    filterMap_operation_operators]

theorem regroup_call (span : Option Span) (callee : Value) (arguments : List Node) :
    (Node.call span callee (.nodes arguments)).regroup chain =
      .call span callee (.nodes (arguments.map (Node.regroup chain))) := by
  rw [Node.call, Node.regroup, regroupItems_nodes]

end

theorem toOperations_operators (operators : List Operator) :
    (Value.operators operators).toOperations = .ok (operators.map Operator.operation) := by
  show (operators.map Value.operator).mapM Value.toOperation = _
  induction operators with
  | nil => rfl
  | cons o os ih => simp [Value.toOperation, ih]; rfl

/-! ## Grouping by precedence -/

theorem mapM_eq_ok_map {α β ε : Type} {f : α → Except ε β} {g : α → β} {xs : List α}
    (h : ∀ x ∈ xs, f x = .ok (g x)) : xs.mapM f = .ok (xs.map g) := by
  induction xs with
  | nil => rfl
  | cons x xs ih =>
      obtain ⟨hfirst, hlater⟩ := List.forall_mem_cons.1 h
      rw [List.mapM_cons, hfirst, ih hlater]
      rfl

theorem groupTerms_outcome_eq (terms : List Node) :
    (groupTerms (terms.map .node)).outcome = terms.mapM fun n => n.groupTerm.outcome := by
  induction terms with
  | nil => rfl
  | cons n ns ih =>
      rw [List.map_cons, groupTerms, Value.groupTerm, Diagnosed.outcome_bind_eq, List.mapM_cons]
      simp only [Diagnosed.outcome_bind_eq, ih]
      rfl

theorem groupExprs_outcome_eq {arguments : List Node} (h : ∀ n ∈ arguments, n.isExpr = true) :
    (groupExprs (arguments.map .node)).outcome = arguments.mapM fun n => n.groupTerm.outcome := by
  induction arguments with
  | nil => rfl
  | cons n ns ih =>
      obtain ⟨hfirst, hlater⟩ := List.forall_mem_cons.1 h
      rw [List.map_cons, groupExprs, Value.groupExpr, if_pos hfirst, Diagnosed.outcome_bind_eq,
        List.mapM_cons]
      simp only [Diagnosed.outcome_bind_eq, ih hlater]
      rfl

variable {f : Node → Node}

theorem groupTerms_outcome {terms : List Node}
    (h : ∀ n ∈ terms, n.groupTerm.outcome = .ok (f n)) :
    (groupTerms (terms.map .node)).outcome = .ok (terms.map f) :=
  (groupTerms_outcome_eq terms).trans (mapM_eq_ok_map h)

theorem groupExprs_outcome {arguments : List Node} (hexprs : ∀ n ∈ arguments, n.isExpr = true)
    (h : ∀ n ∈ arguments, n.groupTerm.outcome = .ok (f n)) :
    (groupExprs (arguments.map .node)).outcome = .ok (arguments.map f) :=
  (groupExprs_outcome_eq hexprs).trans (mapM_eq_ok_map h)

/-- Operands with an operation between each two are grouped as splitting groups them. -/
theorem groupOperands_eq_splitTree {first : Node} {others : List Node}
    {operations : List Operation} (h : others.length = operations.length) :
    groupOperands (first :: others) operations =
      .ok (splitTree first (operations.zip others)) := by
  have hlength : ¬others.length < operations.length := by omega
  rw [groupOperands, groupChain, if_neg hlength, climb_zero]

/-- An expression is grouped as its regrouped terms are. -/
theorem groupTerm_expr_outcome {span : Option Span} {first : Node} {others : List Node}
    {operators : List Operator} (hlength : others.length = operators.length)
    (h : ∀ n ∈ first :: others, n.groupTerm.outcome = .ok (f n)) :
    (Node.expr span (.nodes (first :: others)) (.operators operators)).groupTerm.outcome =
      .ok (splitTree (f first)
        ((operators.map Operator.operation).zip (others.map f))) := by
  have hterms : (Value.nodes (first :: others)).groupTermSequence.outcome =
      .ok (f first :: others.map f) := groupTerms_outcome h
  rw [Node.expr, Node.groupTerm, toOperations_operators,
    Diagnosed.outcome_bind (a := operators.map Operator.operation) rfl,
    Diagnosed.outcome_bind (a := ()) rfl, Diagnosed.outcome_bind hterms]
  apply groupOperands_eq_splitTree
  simp [hlength]

/-- A term is grouped by splitting every chain in it at its loosest operation. -/
theorem IsTerm.groupTerm_outcome {n : Node} (h : IsTerm n) :
    n.groupTerm.outcome = .ok (n.regroup splitTree) := by
  induction h with
  | @expr span terms operators hlength _ ih =>
      cases terms with
      | nil => simp at hlength
      | cons first others =>
          rw [regroup_expr]
          exact groupTerm_expr_outcome (by simpa using hlength) ih
  | @call span callee arguments hexprs _ ih =>
      have harguments : (Value.nodes arguments).groupArguments.outcome =
          .ok (arguments.map (Node.regroup splitTree)) := groupExprs_outcome hexprs ih
      rw [regroup_call, Node.call, Node.groupTerm, Diagnosed.outcome_bind harguments]
      rfl
  | identifier => rfl
  | number => rfl

/-- Grouping an expression by precedence gives the tree that splitting every chain in it at its
loosest operation gives. -/
theorem group_eq_splitTree {e : Node} (hexpr : e.isExpr = true) (h : IsTerm e) :
    e.group.outcome = .ok (e.regroup splitTree) := by
  rw [Node.group, Value.groupExpr, if_pos hexpr]
  exact h.groupTerm_outcome

/-- A name as an operand. -/
def operandNamed (s : String) : Node := .identifier none (.text s)

/-- `c < d`, as it stands in parentheses. -/
def comparedOperand : Node :=
  .expr none (.nodes [operandNamed "c", operandNamed "d"]) (.operators [.less])

/-- `a - b * f(c < d) ^ b ^ (c < d) - a`. -/
def mixedChain : Node :=
  .expr none (.nodes [operandNamed "a", operandNamed "b",
    .call none (.text "f") (.nodes [comparedOperand]), operandNamed "b", comparedOperand,
    operandNamed "a"]) (.operators [.subtract, .multiply, .power, .power, .subtract])

theorem group_eq_splitTree_mixed : mixedChain.isExpr = true ∧ IsTerm mixedChain ∧
    mixedChain.group.outcome = .ok (mixedChain.regroup splitTree) := by
  have hcompared : IsTerm comparedOperand := by
    refine .expr rfl ?_
    simp [operandNamed, IsTerm.identifier]
  have hmixed : IsTerm mixedChain := by
    refine .expr rfl ?_
    intro n hn
    simp only [List.mem_cons, List.not_mem_nil, or_false] at hn
    rcases hn with rfl | rfl | rfl | rfl | rfl | rfl
    · exact .identifier
    · exact .identifier
    · exact .call (List.forall_mem_singleton.2 rfl) (List.forall_mem_singleton.2 hcompared)
    · exact .identifier
    · exact hcompared
    · exact .identifier
  exact ⟨rfl, hmixed, group_eq_splitTree rfl hmixed⟩

end Spruce
