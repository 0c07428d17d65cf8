import Mathlib.Data.List.Induction
import Spruce.Precedence.Grouping
import Spruce.Proofs.Precedence.Regrouping

set_option autoImplicit false

/-!
# Trees that join the operands of a chain

However a chain is grouped, its tree joins the operands in their order by the operations between
them (`Joins`), whether the chain is split at its loosest operation (`joins_splitTree`) or taken
strictly from left to right (`joins_leftTree`). Either way of grouping is regrouping with such trees
(`IsTerm.apply_outcome`), so that what holds of every tree in `Joins` holds of both.

Main definitions: `Joins`, `leftTree` and `Grouping.chain`.
-/

namespace Spruce

/-! ## Joining operands -/

/-- A tree of the operands of a chain in their order, with the operations between them. -/
inductive Joins : (first : Node) → (rest : List Pair) → (tree : Node) → Prop where
  | single (first : Node) : Joins first [] first
  | join {first operand left right : Node} {before after : List Pair} (o : Operation)
      (hleft : Joins first before left) (hright : Joins operand after right) :
      Joins first (before ++ (o, operand) :: after) (joined o left right)

/-- The tree of a chain in which each operation takes in all that stands before it. -/
def leftTree (first : Node) (rest : List Pair) : Node :=
  rest.foldl (fun left p => joined p.1 left p.2) first

theorem joins_splitTree (first : Node) (rest : List Pair) :
    Joins first rest (splitTree first rest) := by
  induction first, rest using splitInduction with
  | single first =>
      rw [splitTree_nil]
      exact .single first
  | split first operand before after o hsplits hleft hright =>
      rw [hsplits.splitTree_eq]
      exact .join o hleft hright

theorem joins_leftTree (first : Node) (rest : List Pair) :
    Joins first rest (leftTree first rest) := by
  induction rest using List.reverseRecOn with
  | nil => exact .single first
  | append_singleton rest p ih =>
      rw [leftTree, List.foldl_append]
      exact .join p.1 ih (.single p.2)

/-! ## Grouping from left to right -/

/-- What has no counterpart can be cut off before two lists are put side by side. -/
theorem zip_take_take {α β : Type} {xs : List α} {ys : List β} {i j : Nat}
    (hi : min xs.length ys.length ≤ i) (hj : min xs.length ys.length ≤ j) :
    (xs.take i).zip (ys.take j) = xs.zip ys := by
  induction xs generalizing ys i j with
  | nil => rw [List.take_nil, List.zip_nil_left, List.zip_nil_left]
  | cons x xs ih =>
      cases ys with
      | nil => rw [List.take_nil, List.zip_nil_right, List.zip_nil_right]
      | cons y ys =>
          rw [List.length_cons, List.length_cons, Nat.add_min_add_right] at hi hj
          obtain ⟨i, rfl⟩ := Nat.exists_eq_add_of_le' (Nat.le_of_add_left_le hi)
          obtain ⟨j, rfl⟩ := Nat.exists_eq_add_of_le' (Nat.le_of_add_left_le hj)
          exact congrArg ((x, y) :: ·) (ih (by omega) (by omega))

/-- Operands that no operator joins are left out of a chain. -/
theorem zip_operations_take (operators : List Operator) (others : List Node) :
    (operators.map Operator.operation).zip (others.take operators.length) =
      (operators.map Operator.operation).zip others := by
  have hall : (operators.map Operator.operation).take operators.length =
      operators.map Operator.operation :=
    List.take_of_length_le (Nat.le_of_eq (List.length_map _))
  nth_rewrite 1 [← hall]
  apply zip_take_take <;> rw [List.length_map] <;> exact Nat.min_le_left _ _

/-- Terms are taken in from left to right as long as there are operators to join them. -/
theorem groupOnto_outcome_eq (left : Node) (operators : List Operator) (others : List Node) :
    (groupOnto left (operators.map .operator) (others.map .node)).outcome =
      (others.take operators.length).mapM (fun n => n.groupTermLeft.outcome) >>= fun operands =>
        .ok (leftTree left ((operators.map Operator.operation).zip operands)) := by
  induction others generalizing left operators with
  | nil => cases operators <;> rfl
  | cons n ns ih =>
      cases operators with
      | nil => rfl
      | cons o os =>
          rw [List.map_cons, List.map_cons, groupOnto, Value.groupTermLeft,
            Diagnosed.outcome_bind_eq, List.length_cons, List.take_succ_cons, List.mapM_cons]
          cases n.groupTermLeft.outcome with
          | error e => rfl
          | ok right =>
              show (groupOnto (joined o.operation left right) (os.map .operator)
                (ns.map .node)).outcome = _
              rw [ih]
              cases (ns.take os.length).mapM fun n => n.groupTermLeft.outcome <;> rfl

theorem groupExprsLeft_outcome_eq {arguments : List Node} (h : ∀ n ∈ arguments, n.isExpr = true) :
    (groupExprsLeft (arguments.map .node)).outcome =
      arguments.mapM fun n => n.groupTermLeft.outcome := by
  induction arguments with
  | nil => rfl
  | cons n ns ih =>
      obtain ⟨hfirst, hlater⟩ := List.forall_mem_cons.1 h
      rw [List.map_cons, groupExprsLeft, Value.groupExprLeft, if_pos hfirst,
        Diagnosed.outcome_bind_eq, List.mapM_cons]
      simp only [Diagnosed.outcome_bind_eq, ih hlater]
      rfl

section

variable {f : Node → Node}

theorem groupOnto_outcome {others : List Node} (left : Node) (operators : List Operator)
    (h : ∀ n ∈ others, n.groupTermLeft.outcome = .ok (f n)) :
    (groupOnto left (operators.map .operator) (others.map .node)).outcome =
      .ok (leftTree left ((operators.map Operator.operation).zip (others.map f))) := by
  have hjoined : ∀ n ∈ others.take operators.length, n.groupTermLeft.outcome = .ok (f n) :=
    fun n hn => h n (List.mem_of_mem_take hn)
  rw [groupOnto_outcome_eq, mapM_eq_ok_map hjoined, List.map_take,
    ← zip_operations_take operators (others.map f)]
  rfl

theorem groupExprsLeft_outcome {arguments : List Node}
    (hexprs : ∀ n ∈ arguments, n.isExpr = true)
    (h : ∀ n ∈ arguments, n.groupTermLeft.outcome = .ok (f n)) :
    (groupExprsLeft (arguments.map .node)).outcome = .ok (arguments.map f) :=
  (groupExprsLeft_outcome_eq hexprs).trans (mapM_eq_ok_map h)

end

/-- A term is grouped from left to right by regrouping every chain in it so. -/
theorem IsTerm.groupTermLeft_outcome {n : Node} (h : IsTerm n) :
    n.groupTermLeft.outcome = .ok (n.regroup leftTree) := by
  induction h with
  | @expr span terms operators hlength _ ih =>
      cases terms with
      | nil => simp at hlength
      | cons first others =>
          have hfirst := ih first List.mem_cons_self
          have hlater := groupOnto_outcome (first.regroup leftTree) operators fun n hn =>
            ih n (List.mem_cons_of_mem first hn)
          rw [regroup_expr, ← hlater]
          show (groupChainLeft .tuple (.node first :: others.map .node) _).outcome = _
          rw [groupChainLeft, Value.groupTermLeft, Diagnosed.outcome_bind hfirst]
          rfl
  | @call span callee arguments hexprs _ ih =>
      have harguments : (Value.nodes arguments).groupArgumentsLeft.outcome =
          .ok (arguments.map (Node.regroup leftTree)) := groupExprsLeft_outcome hexprs ih
      rw [regroup_call, Node.call, Node.groupTermLeft, Diagnosed.outcome_bind harguments]
      rfl
  | identifier => rfl
  | number => rfl

/-! ## Either way of grouping -/

/-- The tree that a way of grouping makes of a chain. -/
def Grouping.chain : Grouping → Node → List Pair → Node
  | byPrecedence => splitTree
  | leftToRight => leftTree

theorem Grouping.joins_chain (g : Grouping) (first : Node) (rest : List Pair) :
    Joins first rest (g.chain first rest) := by
  cases g with
  | byPrecedence => exact joins_splitTree first rest
  | leftToRight => exact joins_leftTree first rest

/-- An expression in which no operand is missing is grouped by regrouping every chain in it. -/
theorem IsTerm.apply_outcome {e : Node} (h : IsTerm e) (hexpr : e.isExpr = true) (g : Grouping) :
    (g.apply e).outcome = .ok (e.regroup g.chain) := by
  cases g with
  | byPrecedence =>
      rw [Grouping.apply, Node.group, Value.groupExpr, if_pos hexpr]
      exact h.groupTerm_outcome
  | leftToRight =>
      rw [Grouping.apply, Node.groupLeft, Value.groupExprLeft, if_pos hexpr]
      exact h.groupTermLeft_outcome

end Spruce
