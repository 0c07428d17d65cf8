import Spruce.Diagnostic.Fault
import Spruce.Diagnostic.Warning
import Spruce.Tree.Operator

set_option autoImplicit false

/-!
# Grouping by precedence

An operation binds the more tightly the higher its level: powers, then products,
then sums, then comparisons. Powers associate to the right and all others to the
left.

A flat expression is grouped by climbing: an operand takes in the operations that
follow it as long as they bind at least as tightly as the level asked for, each
with a right operand that has been grouped in the same way at a level of its own.
Parentheses are expressions of their own and are grouped on their own, and so are
the arguments of calls.

An expression with more than one comparison among its own operators is warned
about before anything in it is looked into. Surplus terms are grouped and
then left out; an operator without an operand is a fault.

Main definitions: `Operation.level` and `Operation.operandLevel`; `climb` and
`Node.group`.
-/

namespace Spruce

/-! ## Levels -/

namespace Operation

/-- How tightly an operation binds. -/
def level : Operation → Nat
  | power => 4
  | multiply | divide | modulo => 3
  | add | subtract => 2
  | compareEq | compareNe | compareLe | compareGe | compareLt | compareGt => 1

/-- An operation that associates to the right. -/
def isRightAssociative : Operation → Bool
  | power => true
  | _ => false

/-- The lowest level that an operation takes into its right operand. -/
def operandLevel (o : Operation) : Nat :=
  if o.isRightAssociative then o.level else o.level + 1

/-- An operation of the lowest level. -/
def isComparison (o : Operation) : Bool := o.level = 1

end Operation

/-! ## Climbing -/

/-- The node of an operation; its span reaches from the left operand to the
right. -/
def joined (o : Operation) (left right : Node) : Node :=
  .binary (Span.join left.span right.span) (.operation o) (.node left) (.node right)

/-- An operation with its right operand, still to be grouped. -/
abbrev Pair := Operation × Node

/-- The operand `left` grouped with the operations of at least the given level
that follow it, and the operations from the first looser one on. -/
def climb (level : Nat) (left : Node) :
    (rest : List Pair) → Node × { later : List Pair // later.length ≤ rest.length }
  | [] => (left, ⟨[], Nat.le_refl _⟩)
  | (o, operand) :: rest =>
      if o.level < level then (left, ⟨(o, operand) :: rest, Nat.le_refl _⟩)
      else
        let (right, ⟨later, hlater⟩) := climb o.operandLevel operand rest
        let (whole, ⟨last, hlast⟩) := climb level (joined o left right) later
        (whole, ⟨last, Nat.le_trans hlast (Nat.le_succ_of_le hlater)⟩)
termination_by rest => rest.length
decreasing_by
  · simp
  · simp only [List.length_cons]
    omega

/-- Operands grouped with the operations between them; nothing when an operand is
missing. -/
def groupChain (operands : List Node) (operations : List Operation) : Option Node :=
  match operands with
  | [] => none
  | first :: others =>
      if others.length < operations.length then none
      else some (climb 0 first (operations.zip others)).1

/-! ## Grouping expressions -/

/-- The operation that a value in the place of an operator stands for. -/
def Value.toOperation (v : Value) : Except Fault Operation :=
  match v with
  | .operator o => .ok o.operation
  | v => .error (.misplaced "operator" v)

/-- The operations of an expression with the given operators. -/
def Value.toOperations (operators : Value) : Except Fault (List Operation) := do
  (← operators.toElements).mapM Value.toOperation

/-- The warnings about an expression with the given operations. -/
def chainWarnings (span : Option Span) (operations : List Operation) : List Warning :=
  if 1 < operations.countP Operation.isComparison then [.chainedComparisons span] else []

/-- The tree of a chain, which needs an operand on either side of each operation. -/
def groupOperands (operands : List Node) (operations : List Operation) : Except Fault Node :=
  match groupChain operands operations with
  | none => .error .missingOperand
  | some n => .ok n

mutual

/-- The tree of a term, with every expression in it grouped by precedence. -/
def Node.groupTerm : Node → Diagnosed Fault Node
  | .expr span terms operators => do
      let operations ← Diagnosed.ofExcept operators.toOperations
      Diagnosed.warn (chainWarnings span operations)
      let operands ← terms.groupTermSequence
      Diagnosed.ofExcept (groupOperands operands operations)
  | .call span callee arguments => do
      pure (.call span callee (.nodes (← arguments.groupArguments)))
  | .identifier span name => pure (.identifier span name)
  | .number span sign integer fraction exponent =>
      pure (.number span sign integer fraction exponent)
  | n => Diagnosed.fail (.notATerm (.node n))
termination_by structural n => n

/-- The tree of a value that stands for a term. -/
def Value.groupTerm : Value → Diagnosed Fault Node
  | .node n => n.groupTerm
  | v => Diagnosed.fail (.notATerm v)
termination_by structural v => v

/-- The trees of some terms. -/
def groupTerms : List Value → Diagnosed Fault (List Node)
  | [] => pure []
  | v :: vs => do
      let tree ← v.groupTerm
      pure (tree :: (← groupTerms vs))
termination_by structural vs => vs

/-- The trees of the terms of a sequence. -/
def Value.groupTermSequence : Value → Diagnosed Fault (List Node)
  | .sequence _ items => groupTerms items
  | .text s => Diagnosed.ofExcept (refuseCharacters .notATerm s)
  | v => Diagnosed.fail (.misplaced "sequence" v)
termination_by structural v => v

/-- The tree of a value that stands for an expression. -/
def Value.groupExpr : Value → Diagnosed Fault Node
  | .node n => if n.isExpr then n.groupTerm else Diagnosed.fail (.misplaced "expression" (.node n))
  | v => Diagnosed.fail (.misplaced "expression" v)
termination_by structural v => v

/-- The trees of some expressions. -/
def groupExprs : List Value → Diagnosed Fault (List Node)
  | [] => pure []
  | v :: vs => do
      let tree ← v.groupExpr
      pure (tree :: (← groupExprs vs))
termination_by structural vs => vs

/-- The trees of the expressions of a sequence. -/
def Value.groupArguments : Value → Diagnosed Fault (List Node)
  | .sequence _ items => groupExprs items
  | .text s => Diagnosed.ofExcept (refuseCharacters (.misplaced "expression") s)
  | v => Diagnosed.fail (.misplaced "sequence" v)
termination_by structural v => v

end

/-- The tree of an expression, with every expression in it grouped by precedence. -/
def Node.group (n : Node) : Diagnosed Fault Node := (Value.node n).groupExpr

end Spruce
