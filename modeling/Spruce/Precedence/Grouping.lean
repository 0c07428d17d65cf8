import Spruce.Precedence.Climbing
import Spruce.Tree.Rebuild

set_option autoImplicit false

/-!
# Ways of grouping

The literal meaning of a flat expression as a tree is that each operation takes in
all that stands before it, whatever its level. Only a first term is needed; terms
are looked into up to the last that an operator joins.

In a whole program every outermost expression is replaced by its grouping, by
precedence or from left to right, which takes care of the expressions inside it;
all else stays as it is.

Main definitions: `Node.groupLeft`; `Grouping` and `Node.groupAll`.
-/

namespace Spruce

/-! ## From left to right -/

mutual

/-- The tree of a term, with every expression in it grouped strictly from left to
right. -/
def Node.groupTermLeft : Node → Diagnosed Fault Node
  | .expr _ terms operators => terms.groupSequenceLeft operators
  | .call span callee arguments => do
      pure (.call span callee (.nodes (← arguments.groupArgumentsLeft)))
  | .identifier span name => pure (.identifier span name)
  | .number span sign integer fraction exponent =>
      pure (.number span sign integer fraction exponent)
  | n => Diagnosed.fail (.notATerm (.node n))
termination_by structural n => n

/-- The tree of a value that stands for a term. -/
def Value.groupTermLeft : Value → Diagnosed Fault Node
  | .node n => n.groupTermLeft
  | v => Diagnosed.fail (.notATerm v)
termination_by structural v => v

/-- The tree of the chain of a sequence of terms. -/
def Value.groupSequenceLeft : Value → (operators : Value) → Diagnosed Fault Node
  | .sequence kind items, operators => groupChainLeft kind items operators
  | v, _ => do
      match ← Diagnosed.ofExcept v.toElements with
      | [] => Diagnosed.fail (.noFirstTerm v)
      | c :: _ => Diagnosed.fail (.notATerm c)
termination_by structural v => v

/-- The tree of a chain of terms. -/
def groupChainLeft (kind : SequenceKind) : List Value → (operators : Value) →
    Diagnosed Fault Node
  | [], _ => Diagnosed.fail (.noFirstTerm (.sequence kind []))
  | v :: vs, operators => do
      let first ← v.groupTermLeft
      groupOnto first (← Diagnosed.ofExcept operators.toElements) vs
termination_by structural vs => vs

/-- The tree of `left` with the operators and terms that follow it. -/
def groupOnto (left : Node) : (operators : List Value) → List Value → Diagnosed Fault Node
  | o :: os, v :: vs => do
      let right ← v.groupTermLeft
      let operation ← Diagnosed.ofExcept o.toOperation
      groupOnto (joined operation left right) os vs
  | _, _ => pure left
termination_by structural _ vs => vs

/-- The tree of a value that stands for an expression. -/
def Value.groupExprLeft : Value → Diagnosed Fault Node
  | .node n =>
      if n.isExpr then n.groupTermLeft else Diagnosed.fail (.misplaced "expression" (.node n))
  | v => Diagnosed.fail (.misplaced "expression" v)
termination_by structural v => v

/-- The trees of some expressions. -/
def groupExprsLeft : List Value → Diagnosed Fault (List Node)
  | [] => pure []
  | v :: vs => do
      let tree ← v.groupExprLeft
      pure (tree :: (← groupExprsLeft vs))
termination_by structural vs => vs

/-- The trees of the expressions of a sequence. -/
def Value.groupArgumentsLeft : Value → Diagnosed Fault (List Node)
  | .sequence _ items => groupExprsLeft items
  | .text s => Diagnosed.ofExcept (refuseCharacters (.misplaced "expression") s)
  | v => Diagnosed.fail (.misplaced "sequence" v)
termination_by structural v => v

end

/-- The tree of an expression, with every expression in it grouped strictly from
left to right. -/
def Node.groupLeft (n : Node) : Diagnosed Fault Node := (Value.node n).groupExprLeft

/-! ## Whole programs -/

/-- A way to group expressions. -/
inductive Grouping where
  | byPrecedence
  | leftToRight
  deriving DecidableEq, Repr

/-- The tree of an expression, grouped in the given way. -/
def Grouping.apply : Grouping → Node → Diagnosed Fault Node
  | byPrecedence => Node.group
  | leftToRight => Node.groupLeft

/-- The grouping of a node in the place of the node, if it is an expression. -/
def Grouping.replacement (g : Grouping) (n : Node) : Diagnosed Fault (Option Replacement) :=
  if n.isExpr then do pure (some (.fresh (.node (← g.apply n)))) else pure none

/-- A tree with each outermost expression grouped. -/
def Node.groupAll (g : Grouping) (n : Node) : Diagnosed Fault Rebuilt :=
  n.rebuildM g.replacement

end Spruce
