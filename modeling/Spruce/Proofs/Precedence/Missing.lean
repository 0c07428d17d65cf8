import Spruce.Proofs.Precedence.Joining
import Spruce.Proofs.Tree.Descendants

set_option autoImplicit false

/-!
# Missing operands and surplus terms

The terms and operators of an expression made by hand need not match. Grouping by precedence needs
an operand after each operator and looks into all terms, also those that no operator joins; grouping
from left to right needs a first term only and looks into no others than those that are joined. So
the two ways fail on different expressions. Either fails just when an expression that it looks into
lacks an operand (`IsRawTerm.term_outcome_error`), and otherwise makes of an expression what it makes
of the expression without what is left over (`IsRawTerm.term_outcome`, `grouping_of_malformed`).

Main definitions: `IsRawTerm`, `Grouping.Lacks`, `Grouping.Reaches` and `Node.trim`.
-/

namespace Spruce

/-! ## Terms of any number -/

/-- Terms in which an expression may have any number of terms and of operators. -/
inductive IsRawTerm : Node → Prop where
  | expr {span : Option Span} {terms : List Node} {operators : List Operator}
      (hterms : ∀ n ∈ terms, IsRawTerm n) :
      IsRawTerm (.expr span (.nodes terms) (.operators operators))
  | call {span : Option Span} {callee : Value} {arguments : List Node}
      (hexprs : ∀ n ∈ arguments, n.isExpr = true) (harguments : ∀ n ∈ arguments, IsRawTerm n) :
      IsRawTerm (.call span callee (.nodes arguments))
  | identifier {span : Option Span} {name : Value} : IsRawTerm (.identifier span name)
  | number {span : Option Span} {sign integer fraction exponent : Value} :
      IsRawTerm (.number span sign integer fraction exponent)

namespace Grouping

/-- The terms that are looked into where there are so many operators: all of them by precedence, and
from left to right those that the operators join. -/
def looked {α : Type} (g : Grouping) (operatorCount : Nat) (terms : List α) : List α :=
  match g with
  | byPrecedence => terms
  | leftToRight => terms.take (operatorCount + 1)

/-- The operators that are kept where there are so many terms: all of them by precedence, and from
left to right those that have a term after them. -/
def kept {α : Type} (g : Grouping) (termCount : Nat) (operators : List α) : List α :=
  match g with
  | byPrecedence => operators
  | leftToRight => operators.take (termCount - 1)

/-- An expression that lacks an operand: by precedence one with no more terms than operators, and
from left to right one without terms. -/
def Lacks : Grouping → Node → Prop
  | byPrecedence, .expr _ terms operators => terms.elements.length ≤ operators.elements.length
  | leftToRight, .expr _ terms _ => terms.elements = []
  | _, _ => False

/-- What is looked into when a node is grouped: those of the terms of an expression, and the arguments
of a call. -/
def under (g : Grouping) : Node → List Value
  | .expr _ terms operators => g.looked operators.elements.length terms.elements
  | n => n.children

/-- The node `m` is `n` or is looked into when `n` is grouped. -/
inductive Reaches (g : Grouping) : (n m : Node) → Prop where
  | refl {n : Node} : Reaches g n n
  | step {n c m : Node} (hc : .node c ∈ g.under n) (h : Reaches g c m) : Reaches g n m

/-- The tree of a term. -/
def term : Grouping → Node → Diagnosed Fault Node
  | byPrecedence => Node.groupTerm
  | leftToRight => Node.groupTermLeft

/-- What is wrong with an expression that lacks an operand. -/
def fault : Grouping → Fault
  | byPrecedence => .missingOperand
  | leftToRight => .noFirstTerm (.nodes [])

/-- The tree of the operands that an expression gives, with the operations for its operators. -/
def join : Grouping → List Node → List Operation → Except Fault Node
  | byPrecedence, operands, operations => groupOperands operands operations
  | leftToRight, [], _ => .error (.noFirstTerm (.nodes []))
  | leftToRight, first :: others, operations => .ok (leftTree first (operations.zip others))

end Grouping

mutual

/-- A term with every expression in it cut to as many terms as its operators join, and to the
operators that are kept. -/
def Node.trim (g : Grouping) : Node → Node
  | .expr span terms operators =>
      .expr span (.tuple ((terms.trimItems g).take (operators.elements.length + 1)))
        (.tuple (g.kept terms.elements.length operators.elements))
  | .call span callee arguments => .call span callee (.tuple (arguments.trimItems g))
  | n => n
termination_by structural n => n

/-- The elements of a sequence, with every expression in them cut. -/
def Value.trimItems (g : Grouping) : Value → List Value
  | .sequence _ items => trimAll g items
  | _ => []
termination_by structural v => v

/-- A value with every expression in it cut, if it is a term. -/
def Value.trim (g : Grouping) : Value → Value
  | .node n => .node (n.trim g)
  | v => v
termination_by structural v => v

/-- Values with every expression in them cut. -/
def trimAll (g : Grouping) : List Value → List Value
  | [] => []
  | v :: vs => v.trim g :: trimAll g vs
termination_by structural vs => vs

end

theorem trimItems_nodes (g : Grouping) (ns : List Node) :
    (Value.nodes ns).trimItems g = (ns.map (Node.trim g)).map .node := by
  show trimAll g (ns.map .node) = _
  induction ns with
  | nil => rfl
  | cons n ns ih => exact congrArg (Value.node (n.trim g) :: ·) ih

theorem Grouping.kept_map {α β : Type} (g : Grouping) (f : α → β) (count : Nat) (xs : List α) :
    g.kept count (xs.map f) = (g.kept count xs).map f := by
  cases g with
  | byPrecedence => rfl
  | leftToRight => exact List.map_take.symm

theorem trim_expr (g : Grouping) (span : Option Span) (terms : List Node)
    (operators : List Operator) :
    (Node.expr span (.nodes terms) (.operators operators)).trim g =
      .expr span (.nodes ((terms.map (Node.trim g)).take (operators.length + 1)))
        (.operators (g.kept terms.length operators)) := by
  have hterms : (Value.nodes terms).elements.length = terms.length := List.length_map _
  have hoperators : (Value.operators operators).elements.length = operators.length :=
    List.length_map _
  have hkept : g.kept terms.length (Value.operators operators).elements =
      (g.kept terms.length operators).map .operator := g.kept_map _ _ _
  rw [Node.expr, Node.trim, trimItems_nodes, hterms, hoperators, hkept, ← List.map_take]
  rfl

theorem trim_call (g : Grouping) (span : Option Span) (callee : Value) (arguments : List Node) :
    (Node.call span callee (.nodes arguments)).trim g =
      .call span callee (.nodes (arguments.map (Node.trim g))) := by
  rw [Node.call, Node.trim, trimItems_nodes]
  rfl

/-! ## Outcomes one after the other -/

section

variable {α β ε : Type} {f : α → Except ε β} {xs : List α}

/-- If there is but one way to fail, it does not matter what fails. -/
theorem mapM_eq_error {e : ε} {g : α → β} (h : ∀ x ∈ xs, f x = .error e ∨ f x = .ok (g x))
    (hfail : ∃ x ∈ xs, f x = .error e) : xs.mapM f = .error e := by
  induction xs with
  | nil =>
      obtain ⟨x, hx, -⟩ := hfail
      exact absurd hx List.not_mem_nil
  | cons x xs ih =>
      obtain ⟨hfirst, hlater⟩ := List.forall_mem_cons.1 h
      rw [List.mapM_cons]
      rcases hfirst with hfirst | hfirst
      · rw [hfirst]
        rfl
      · obtain ⟨z, hz, hfail⟩ := hfail
        have hrest : ∃ x ∈ xs, f x = .error e := by
          rcases List.mem_cons.1 hz with rfl | hz
          · cases hfail.symm.trans hfirst
          · exact ⟨z, hz, hfail⟩
        rw [hfirst, ih hlater hrest]
        rfl

end

/-! ## Either way of grouping -/

namespace Grouping

/-- An expression is grouped by joining the trees of those of its terms that are looked into. -/
theorem term_expr_outcome (g : Grouping) (span : Option Span) (terms : List Node)
    (operators : List Operator) :
    (g.term (.expr span (.nodes terms) (.operators operators))).outcome =
      (g.looked operators.length terms).mapM (fun n => (g.term n).outcome) >>= fun operands =>
        g.join operands (operators.map Operator.operation) := by
  cases g with
  | byPrecedence =>
      show (Node.groupTerm _).outcome = _
      rw [Node.expr, Node.groupTerm, toOperations_operators,
        Diagnosed.outcome_bind (a := operators.map Operator.operation) rfl,
        Diagnosed.outcome_bind (a := ()) rfl, Diagnosed.outcome_bind_eq]
      exact congrArg (· >>= _) (groupTerms_outcome_eq terms)
  | leftToRight =>
      cases terms with
      | nil => rfl
      | cons first others =>
          show (groupChainLeft .tuple (.node first :: others.map .node) _).outcome = _
          rw [groupChainLeft, Value.groupTermLeft, Diagnosed.outcome_bind_eq, looked,
            List.take_succ_cons, List.mapM_cons]
          show _ = ((Node.groupTermLeft first).outcome >>= _) >>= _
          cases first.groupTermLeft.outcome with
          | error e => rfl
          | ok left =>
              show (groupOnto left (operators.map .operator) (others.map .node)).outcome = _
              rw [groupOnto_outcome_eq]
              show _ = ((others.take operators.length).mapM
                (fun n => n.groupTermLeft.outcome) >>= _) >>= _
              cases (others.take operators.length).mapM fun n => n.groupTermLeft.outcome <;> rfl

/-- All arguments of a call are grouped. -/
theorem term_call_outcome (g : Grouping) (span : Option Span) (callee : Value)
    {arguments : List Node} (h : ∀ n ∈ arguments, n.isExpr = true) :
    (g.term (.call span callee (.nodes arguments))).outcome =
      arguments.mapM (fun n => (g.term n).outcome) >>= fun trees =>
        .ok (.call span callee (.nodes trees)) := by
  cases g with
  | byPrecedence =>
      show (Node.groupTerm _).outcome = _
      rw [Node.call, Node.groupTerm, Diagnosed.outcome_bind_eq]
      exact congrArg (· >>= _) (groupExprs_outcome_eq h)
  | leftToRight =>
      show (Node.groupTermLeft _).outcome = _
      rw [Node.call, Node.groupTermLeft, Diagnosed.outcome_bind_eq]
      exact congrArg (· >>= _) (groupExprsLeft_outcome_eq h)

/-- Too few operands cannot be joined. -/
theorem join_of_lacks {g : Grouping} {span : Option Span} {terms : List Node}
    {operators : List Operator} (h : g.Lacks (.expr span (.nodes terms) (.operators operators)))
    (f : Node → Node) :
    g.join ((g.looked operators.length terms).map f) (operators.map Operator.operation) =
      .error g.fault := by
  cases g with
  | byPrecedence =>
      have hcount : (terms.map Value.node).length ≤ (operators.map Value.operator).length := h
      rw [List.length_map, List.length_map] at hcount
      rw [looked, join, groupOperands]
      cases terms with
      | nil => rfl
      | cons first others =>
          have hshort : (others.map f).length < (operators.map Operator.operation).length := by
            rw [List.length_cons] at hcount
            rw [List.length_map, List.length_map]
            omega
          rw [List.map_cons, groupChain, if_pos hshort]
          rfl
  | leftToRight =>
      obtain rfl := List.map_eq_nil_iff.1 (h : terms.map Value.node = [])
      rfl

/-- Operands that are not too few are joined to the tree of a chain, from which surplus operands are
left out. -/
theorem join_of_not_lacks {g : Grouping} {span : Option Span} {first : Node} {others : List Node}
    {operators : List Operator}
    (h : ¬g.Lacks (.expr span (.nodes (first :: others)) (.operators operators)))
    (f : Node → Node) :
    g.join ((g.looked operators.length (first :: others)).map f)
        (operators.map Operator.operation) =
      .ok (g.chain (f first) ((operators.map Operator.operation).zip (others.map f))) := by
  cases g with
  | byPrecedence =>
      have hcount : ¬((first :: others).map Value.node).length ≤
          (operators.map Value.operator).length := h
      rw [List.length_map, List.length_map, List.length_cons] at hcount
      have hlong : ¬(others.map f).length < (operators.map Operator.operation).length := by
        rw [List.length_map, List.length_map]
        omega
      rw [looked, join, groupOperands, List.map_cons, groupChain, if_neg hlong, climb_zero]
      rfl
  | leftToRight =>
      rw [looked, List.take_succ_cons, List.map_cons, join, List.map_take, zip_operations_take]
      rfl

end Grouping

/-- The tree of an expression without what is left over is that of the chain of its terms. -/
theorem regroup_trim_expr {chain : Node → List Pair → Node} (g : Grouping) (span : Option Span)
    (first : Node) (others : List Node) (operators : List Operator) :
    ((Node.expr span (.nodes (first :: others)) (.operators operators)).trim g).regroup chain =
      chain ((first.trim g).regroup chain)
        ((operators.map Operator.operation).zip
          (others.map fun n => (n.trim g).regroup chain)) := by
  obtain ⟨i, hi, hkept⟩ : ∃ i, min operators.length others.length ≤ i ∧
      g.kept (first :: others).length operators = operators.take i := by
    cases g with
    | byPrecedence => exact ⟨operators.length, Nat.min_le_left _ _, List.take_length.symm⟩
    | leftToRight => exact ⟨others.length, Nat.min_le_right _ _, rfl⟩
  rw [trim_expr, hkept, List.map_cons, List.take_succ_cons, regroup_expr, List.map_take,
    List.map_take, List.map_map]
  refine congrArg _ (zip_take_take ?_ ?_)
  · rw [List.length_map, List.length_map]
    exact hi
  · rw [List.length_map, List.length_map]
    exact Nat.min_le_left _ _

/-! ## What is looked into -/

theorem Grouping.looked_map {α β : Type} (g : Grouping) (f : α → β) (count : Nat) (xs : List α) :
    g.looked count (xs.map f) = (g.looked count xs).map f := by
  cases g with
  | byPrecedence => rfl
  | leftToRight => exact List.map_take.symm

theorem Grouping.under_expr (g : Grouping) (span : Option Span) (terms : List Node)
    (operators : List Operator) :
    g.under (.expr span (.nodes terms) (.operators operators)) =
      (g.looked operators.length terms).map .node := by
  have hoperators : (Value.operators operators).elements.length = operators.length :=
    List.length_map _
  rw [Node.expr, under, hoperators]
  exact g.looked_map _ _ _

theorem Grouping.under_call (g : Grouping) (span : Option Span) (callee : Value)
    (arguments : List Node) :
    g.under (.call span callee (.nodes arguments)) = arguments.map .node := List.append_nil _

/-- By precedence all that stands in a tree is looked into. -/
theorem Grouping.reaches_byPrecedence_iff {n m : Node} :
    Grouping.byPrecedence.Reaches n m ↔ n.Has m := by
  have hunder : ∀ n, Grouping.byPrecedence.under n = n.children := by
    intro n
    unfold under
    split
    · exact (List.append_nil _).symm
    · rfl
  constructor
  · intro h
    induction h with
    | refl => exact .refl
    | step hc _ ih => exact .child (hunder _ ▸ hc) ih
  · intro h
    induction h with
    | refl => exact .refl
    | child hc _ ih => exact .step (hunder _ ▸ hc) ih

theorem Grouping.mem_looked_of_mem_take {g : Grouping} {count : Nat} {terms : List Node} {c : Node}
    (h : c ∈ terms.take (count + 1)) : c ∈ g.looked count terms := by
  cases g with
  | byPrecedence => exact List.mem_of_mem_take h
  | leftToRight => exact h

theorem Grouping.mem_of_mem_looked {g : Grouping} {count : Nat} {terms : List Node} {c : Node}
    (h : c ∈ g.looked count terms) : c ∈ terms := by
  cases g with
  | byPrecedence => exact h
  | leftToRight => exact List.mem_of_mem_take h

/-- An expression that lacks no operand has one more term than operators when what is left over is
cut off. -/
theorem Grouping.length_take_of_not_lacks {g : Grouping} {span : Option Span} {terms : List Node}
    {operators : List Operator}
    (h : ¬g.Lacks (.expr span (.nodes terms) (.operators operators))) :
    (terms.take (operators.length + 1)).length = (g.kept terms.length operators).length + 1 := by
  cases g with
  | byPrecedence =>
      have hcount : ¬(terms.map Value.node).length ≤ (operators.map Value.operator).length := h
      rw [List.length_map, List.length_map] at hcount
      rw [List.length_take, kept]
      omega
  | leftToRight =>
      have hsome : ¬terms.map Value.node = [] := h
      rw [List.map_eq_nil_iff] at hsome
      have hpos := List.length_pos_iff.2 hsome
      rw [List.length_take, kept, List.length_take]
      omega

section

variable {g : Grouping} {span : Option Span} {c m : Node}

theorem Grouping.Reaches.of_mem_looked {terms : List Node} {operators : List Operator}
    (hc : c ∈ g.looked operators.length terms) (h : g.Reaches c m) :
    g.Reaches (.expr span (.nodes terms) (.operators operators)) m :=
  .step (g.under_expr span terms operators ▸ List.mem_map_of_mem hc) h

theorem Grouping.Reaches.of_mem_arguments {callee : Value} {arguments : List Node}
    (hc : c ∈ arguments) (h : g.Reaches c m) :
    g.Reaches (.call span callee (.nodes arguments)) m :=
  .step (g.under_call span callee arguments ▸ List.mem_map_of_mem hc) h

/-- What is reached from a node is the node, or it is reached from what is looked into there. -/
theorem Grouping.Reaches.eq_or_exists {n : Node} (h : g.Reaches n m) (ns : List Node)
    (hunder : g.under n = ns.map .node) : m = n ∨ ∃ c ∈ ns, g.Reaches c m := by
  cases h with
  | refl => exact .inl rfl
  | step hc h =>
      rw [hunder] at hc
      obtain ⟨c, hmem, heq⟩ := List.mem_map.1 hc
      obtain rfl := Value.node.inj heq
      exact .inr ⟨c, hmem, h⟩

end

namespace IsRawTerm

variable {g : Grouping} {n m : Node}

theorem isTree (h : IsRawTerm n) : n.IsTree := by
  induction h with
  | expr _ ih => exact .intro (List.append_nil _) ih
  | call _ _ ih => exact .intro (List.append_nil _) ih
  | identifier | number => exact .of_children_eq_nil rfl

theorem isExpr_trim (h : IsRawTerm n) (hexpr : n.isExpr = true) : (n.trim g).isExpr = true := by
  cases h with
  | expr hterms =>
      rw [trim_expr]
      rfl
  | _ => exact Bool.noConfusion hexpr

/-- If no expression that is looked into lacks an operand, then none is missing once what is left
over is cut off. -/
theorem isTerm_trim (h : IsRawTerm n) (hnone : ∀ m, g.Reaches n m → ¬g.Lacks m) :
    IsTerm (n.trim g) := by
  induction h with
  | @expr span terms operators _ ih =>
      rw [trim_expr, ← List.map_take]
      refine .expr ?_ (List.forall_mem_map.2 fun c hc => ?_)
      · rw [List.length_map]
        exact Grouping.length_take_of_not_lacks (hnone _ .refl)
      · exact ih c (List.mem_of_mem_take hc) fun m hm =>
          hnone m (.of_mem_looked (Grouping.mem_looked_of_mem_take hc) hm)
  | @call span callee arguments hexprs harguments ih =>
      rw [trim_call]
      refine .call (List.forall_mem_map.2 fun c hc => ?_) (List.forall_mem_map.2 fun c hc => ?_)
      · exact (harguments c hc).isExpr_trim (hexprs c hc)
      · exact ih c hc fun m hm => hnone m (.of_mem_arguments hc hm)
  | identifier => exact .identifier
  | number => exact .number

/-- If no expression that is looked into lacks an operand, a term is grouped as it is without what is
left over. -/
theorem term_outcome (h : IsRawTerm n) (hnone : ∀ m, g.Reaches n m → ¬g.Lacks m) :
    (g.term n).outcome = .ok ((n.trim g).regroup g.chain) := by
  induction h with
  | @expr span terms operators _ ih =>
      have hlooked : ∀ c ∈ g.looked operators.length terms,
          (g.term c).outcome = .ok ((c.trim g).regroup g.chain) := fun c hc =>
        ih c (Grouping.mem_of_mem_looked hc) fun m hm => hnone m (.of_mem_looked hc hm)
      have hself := hnone _ .refl
      rw [Grouping.term_expr_outcome, mapM_eq_ok_map hlooked]
      cases terms with
      | nil =>
          cases g with
          | byPrecedence => exact absurd (Nat.zero_le _) hself
          | leftToRight => exact absurd rfl hself
      | cons first others =>
          rw [regroup_trim_expr]
          exact Grouping.join_of_not_lacks hself _
  | @call span callee arguments hexprs _ ih =>
      have hall : ∀ c ∈ arguments, (g.term c).outcome = .ok ((c.trim g).regroup g.chain) :=
        fun c hc => ih c hc fun m hm => hnone m (.of_mem_arguments hc hm)
      rw [Grouping.term_call_outcome g span callee hexprs, mapM_eq_ok_map hall, trim_call, regroup_call,
        List.map_map]
      rfl
  | identifier | number => cases g <;> rfl

/-- If a term can fail only for want of an operand, it fails so or is grouped as it is without what is
left over. -/
theorem term_outcome_or (h : IsRawTerm n)
    (hfail : ∀ m, g.Reaches n m → g.Lacks m → (g.term n).outcome = .error g.fault) :
    (g.term n).outcome = .error g.fault ∨
      (g.term n).outcome = .ok ((n.trim g).regroup g.chain) := by
  by_cases hsome : ∃ m, g.Reaches n m ∧ g.Lacks m
  · obtain ⟨m, hm, hlacks⟩ := hsome
    exact .inl (hfail m hm hlacks)
  · exact .inr (h.term_outcome fun m hm hlacks => hsome ⟨m, hm, hlacks⟩)

/-- A term is not grouped if an expression that is looked into lacks an operand. -/
theorem term_outcome_error (h : IsRawTerm n) (hm : g.Reaches n m) (hlacks : g.Lacks m) :
    (g.term n).outcome = .error g.fault := by
  induction h generalizing m with
  | @expr span terms operators hterms ih =>
      have hlooked : ∀ c ∈ g.looked operators.length terms, (g.term c).outcome = .error g.fault ∨
          (g.term c).outcome = .ok ((c.trim g).regroup g.chain) := fun c hc =>
        have hmem := Grouping.mem_of_mem_looked hc
        (hterms c hmem).term_outcome_or fun _ => ih c hmem
      rw [Grouping.term_expr_outcome]
      by_cases hfail : ∃ c ∈ g.looked operators.length terms, (g.term c).outcome = .error g.fault
      · rw [mapM_eq_error hlooked hfail]
        rfl
      -- if all terms that are looked into have trees, the expression itself lacks an operand
      · rcases hm.eq_or_exists _ (g.under_expr span terms operators) with rfl | ⟨c, hc, hm⟩
        · have hall : ∀ c ∈ g.looked operators.length terms,
              (g.term c).outcome = .ok ((c.trim g).regroup g.chain) := fun c hc =>
            (hlooked c hc).resolve_left fun herror => hfail ⟨c, hc, herror⟩
          rw [mapM_eq_ok_map hall]
          exact Grouping.join_of_lacks hlacks _
        · exact absurd ⟨c, hc, ih c (Grouping.mem_of_mem_looked hc) hm hlacks⟩ hfail
  | @call span callee arguments hexprs harguments ih =>
      have hall : ∀ c ∈ arguments, (g.term c).outcome = .error g.fault ∨
          (g.term c).outcome = .ok ((c.trim g).regroup g.chain) := fun c hc =>
        (harguments c hc).term_outcome_or fun _ => ih c hc
      rcases hm.eq_or_exists _ (g.under_call span callee arguments) with rfl | ⟨c, hc, hm⟩
      · cases g <;> exact hlacks.elim
      · rw [Grouping.term_call_outcome g span callee hexprs,
          mapM_eq_error hall ⟨c, hc, ih c hc hm hlacks⟩]
        rfl
  | identifier | number =>
      obtain rfl | ⟨c, hc, -⟩ := hm.eq_or_exists [] rfl
      · cases g <;> exact hlacks.elim
      · exact absurd hc List.not_mem_nil

end IsRawTerm

/-! ## Malformed expressions -/

theorem Grouping.apply_eq_term (g : Grouping) {e : Node} (h : e.isExpr = true) :
    g.apply e = g.term e := by
  cases g with
  | byPrecedence => exact if_pos h
  | leftToRight => exact if_pos h

/-- An expression is not grouped just when one that is looked into lacks an operand, and otherwise as
it is without what is left over. -/
theorem IsRawTerm.apply_outcome {e : Node} (h : IsRawTerm e) (hexpr : e.isExpr = true)
    (g : Grouping) :
    ((g.apply e).outcome = .error g.fault ↔ ∃ m, g.Reaches e m ∧ g.Lacks m) ∧
      ((¬∃ m, g.Reaches e m ∧ g.Lacks m) →
        ∃ tree, (g.apply e).outcome = .ok tree ∧ (g.apply (e.trim g)).outcome = .ok tree) := by
  have hwhole : (¬∃ m, g.Reaches e m ∧ g.Lacks m) →
      ∃ tree, (g.apply e).outcome = .ok tree ∧ (g.apply (e.trim g)).outcome = .ok tree := by
    intro hnone
    have hlacks : ∀ m, g.Reaches e m → ¬g.Lacks m := fun m hm hlacks => hnone ⟨m, hm, hlacks⟩
    refine ⟨_, ?_, (h.isTerm_trim hlacks).apply_outcome (h.isExpr_trim hexpr) g⟩
    rw [g.apply_eq_term hexpr]
    exact h.term_outcome hlacks
  refine ⟨⟨fun hfault => ?_, ?_⟩, hwhole⟩
  · refine Classical.byContradiction fun hnone => ?_
    obtain ⟨tree, htree, -⟩ := hwhole hnone
    cases hfault.symm.trans htree
  · rintro ⟨m, hm, hlacks⟩
    rw [g.apply_eq_term hexpr]
    exact h.term_outcome_error hm hlacks

/-- Grouping by precedence fails for want of an operand just when a walk over the expression meets
one with no more terms than operators; otherwise it gives the tree of the expression with the terms
that no operator joins cut off. Grouping from left to right fails for want of a first term just when
it comes, through terms that operators join and all arguments, to an expression without terms;
otherwise it gives the tree of the expression with both the terms and the operators cut off that
have no counterpart. -/
theorem grouping_of_malformed {e : Node} (hexpr : e.isExpr = true) (h : IsRawTerm e) :
    ((e.group.outcome = .error .missingOperand ↔
        ∃ m ∈ (Value.node e).walk.nodes, Grouping.byPrecedence.Lacks m) ∧
      ((¬∃ m ∈ (Value.node e).walk.nodes, Grouping.byPrecedence.Lacks m) →
        ∃ tree, e.group.outcome = .ok tree ∧
          (e.trim .byPrecedence).group.outcome = .ok tree)) ∧
    ((e.groupLeft.outcome = .error (.noFirstTerm (.nodes [])) ↔
        ∃ m, Grouping.leftToRight.Reaches e m ∧ Grouping.leftToRight.Lacks m) ∧
      ((¬∃ m, Grouping.leftToRight.Reaches e m ∧ Grouping.leftToRight.Lacks m) →
        ∃ tree, e.groupLeft.outcome = .ok tree ∧
          (e.trim .leftToRight).groupLeft.outcome = .ok tree)) := by
  have hwalk : ∀ m, m ∈ (Value.node e).walk.nodes ↔ Grouping.byPrecedence.Reaches e m := fun m =>
    ((walk_of_isTree h.isTree).2 m).trans Grouping.reaches_byPrecedence_iff.symm
  simp only [hwalk]
  exact ⟨h.apply_outcome hexpr .byPrecedence, h.apply_outcome hexpr .leftToRight⟩

/-- `b`, with two operators but no operand after either. -/
def operandWanting : Node :=
  .expr none (.nodes [operandNamed "b"]) (.operators [.multiply, .power])

/-- `a + (b)`, where the second operand has operators too many, and behind it stands a surplus
expression without terms. -/
def lopsidedChain : Node :=
  .expr none (.nodes [operandNamed "a", operandWanting, .expr none (.nodes []) (.operators [])])
    (.operators [.add])

/-- From left to right neither the surplus operators nor the empty expression are looked into. -/
theorem grouping_of_malformed_lopsided : lopsidedChain.isExpr = true ∧ IsRawTerm lopsidedChain ∧
    lopsidedChain.group.outcome = .error .missingOperand ∧
      ∃ tree, lopsidedChain.groupLeft.outcome = .ok tree ∧
        (lopsidedChain.trim .leftToRight).groupLeft.outcome = .ok tree := by
  have hname : ∀ s, IsRawTerm (operandNamed s) := fun _ => .identifier
  have hwanting : IsRawTerm operandWanting := .expr (List.forall_mem_singleton.2 (hname "b"))
  have hterm : IsRawTerm lopsidedChain :=
    .expr (List.forall_mem_cons.2 ⟨hname "a", List.forall_mem_cons.2
      ⟨hwanting, List.forall_mem_singleton.2 (.expr fun _ hn => absurd hn List.not_mem_nil)⟩⟩)
  obtain ⟨⟨hmissing, -⟩, -, hleft⟩ := grouping_of_malformed (e := lopsidedChain) rfl hterm
  have hbelow : lopsidedChain.Has operandWanting :=
    .child (List.mem_cons_of_mem _ List.mem_cons_self) .refl
  have hleaf : ∀ s m, Grouping.leftToRight.Reaches (operandNamed s) m →
      ¬Grouping.leftToRight.Lacks m := by
    intro s m hm hlacks
    obtain rfl | ⟨c, hc, -⟩ := hm.eq_or_exists [] rfl
    · exact hlacks
    · exact absurd hc List.not_mem_nil
  have hsecond : ∀ m, Grouping.leftToRight.Reaches operandWanting m →
      ¬Grouping.leftToRight.Lacks m := by
    intro m hm hlacks
    obtain rfl | ⟨c, hc, hm⟩ := hm.eq_or_exists [operandNamed "b"] rfl
    · exact List.cons_ne_nil _ _ hlacks
    · exact hleaf "b" m (List.mem_singleton.1 hc ▸ hm) hlacks
  refine ⟨rfl, hterm, hmissing.2 ⟨operandWanting, ?_, ?_⟩, hleft ?_⟩
  · exact ((walk_of_isTree hterm.isTree).2 operandWanting).2 hbelow
  · exact Nat.le_succ 1
  · rintro ⟨m, hm, hlacks⟩
    obtain rfl | ⟨c, hc, hm⟩ := hm.eq_or_exists [operandNamed "a", operandWanting] rfl
    · exact List.cons_ne_nil _ _ hlacks
    · rcases List.mem_cons.1 hc with rfl | hc
      · exact hleaf "a" m hm hlacks
      · exact hsecond m (List.mem_singleton.1 hc ▸ hm) hlacks

end Spruce
