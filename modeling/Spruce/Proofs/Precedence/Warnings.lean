import Spruce.Proofs.Precedence.Comparisons
import Spruce.Proofs.Precedence.Resolving

set_option autoImplicit false

/-!
# Warnings about comparisons

Grouping by precedence warns about every expression with two comparisons among its own operators,
and of nothing else, in the order in which a walk over the tree meets these expressions. Rebuilding
goes through the fields of nodes and grouping through the terms of expressions, while a walk goes
through children; that the orders agree is shown for the terms of an expression first
(`IsTerm.groupTerm_warnings`), and then for what is around expressions
(`Node.IsWhole.groupAll_warnings`). Grouping from left to right warns of nothing
(`Node.groupLeft_warnings`).

Main definitions: `Node.IsWhole`, for trees in which no operand is missing, and
`Node.walkWarnings`.
-/

namespace Spruce

/-! ## Warnings along a walk -/

theorem IsTerm.isTree {n : Node} (h : IsTerm n) : n.IsTree := by
  induction h with
  | expr _ _ ih => exact .intro (List.append_nil _) ih
  | call _ _ ih => exact .intro (List.append_nil _) ih
  | identifier | number => exact .of_children_eq_nil rfl

section

variable {f : Node → Node} {w : Node → List Warning}

end

section

variable (replacement : Node → Diagnosed Fault (Option Replacement))

variable {replacement} {f : Node → Option Replacement} {P : Node → Prop}

namespace Answers

end Answers

end

/-! ## Whole trees -/

/-- A tree in which each field holds what it is for and no operand is missing in an expression. -/
def Node.IsWhole (n : Node) : Prop :=
  ∀ m, n.Has m → m.IsFitted ∧ (m.isExpr = true → IsTerm m)

namespace Node.IsWhole

variable {n : Node}

theorem of_mem_children {c : Node} (h : n.IsWhole) (hc : .node c ∈ n.children) : c.IsWhole := by
  intro m hm
  exact h m (.child hc hm)

theorem isTree (h : n.IsWhole) : n.IsTree := fun m hm => (h m hm).1.exists_children

/-- No expression of a whole tree fails to be grouped. -/
theorem answers (g : Grouping) : Answers g.replacement g.regrouped Node.IsWhole where
  outcome_eq n hn := by
    rw [Grouping.replacement, Grouping.regrouped]
    split
    · next hexpr =>
        rw [Diagnosed.outcome_bind (((hn n .refl).2 hexpr).apply_outcome hexpr g)]
        rfl
    · rfl
  below n hn _ v hv c hc := by
    apply hn.of_mem_children
    rw [(hn n .refl).1.children_eq]
    exact List.mem_flatMap.2 ⟨v, hv, hc⟩

end Node.IsWhole

/-! ## Grouping from left to right -/

/-- A term is grouped without a warning if what its fields may hold is. -/
theorem groupTermLeft_warnings_of_fields {n : Node} (h : ∀ v ∈ n.fields,
    (∀ operators, (v.groupSequenceLeft operators).warnings = []) ∧
      v.groupArgumentsLeft.warnings = []) : n.groupTermLeft.warnings = [] := by
  unfold Node.groupTermLeft
  split
  · next terms operators => exact (h terms List.mem_cons_self).1 operators
  · next callee arguments =>
      have harguments := (h arguments (List.mem_cons_of_mem callee List.mem_cons_self)).2
      exact Diagnosed.warnings_bind_eq_nil harguments fun _ => rfl
  · rfl
  · rfl
  · rfl

mutual

/-- Grouping a term from left to right warns of nothing. -/
theorem Node.groupTermLeft_warnings : (n : Node) → n.groupTermLeft.warnings = []
  | ⟨_, _, fields⟩ => groupTermLeft_warnings_of_fields (groupFieldsLeft_warnings fields)
termination_by structural n => n

theorem groupFieldsLeft_warnings : (vs : List Value) → ∀ v ∈ vs,
    (∀ operators, (v.groupSequenceLeft operators).warnings = []) ∧
      v.groupArgumentsLeft.warnings = []
  | [] => fun _ hv => absurd hv List.not_mem_nil
  | v :: vs => List.forall_mem_cons.2
      ⟨⟨v.groupSequenceLeft_warnings, v.groupArgumentsLeft_warnings⟩, groupFieldsLeft_warnings vs⟩
termination_by structural vs => vs

theorem Value.groupTermLeft_warnings : (v : Value) → v.groupTermLeft.warnings = []
  | .node n => n.groupTermLeft_warnings
  | .sequence _ _ | .absent | .truth _ | .whole _ | .real _ | .text _ | .operator _
  | .operation _ | .targetKind _ | .fragment _ _ => rfl
termination_by structural v => v

theorem Value.groupSequenceLeft_warnings : (v operators : Value) →
    (v.groupSequenceLeft operators).warnings = []
  | .sequence kind items, operators => groupChainLeft_warnings kind items operators
  | .text s, _ => by
      unfold Value.groupSequenceLeft
      exact Diagnosed.warnings_bind_eq_nil rfl fun characters => by cases characters <;> rfl
  | .node _, _ | .absent, _ | .truth _, _ | .whole _, _ | .real _, _ | .operator _, _
  | .operation _, _ | .targetKind _, _ | .fragment _ _, _ => rfl
termination_by structural v => v

theorem groupChainLeft_warnings (kind : SequenceKind) : (vs : List Value) →
    (operators : Value) → (groupChainLeft kind vs operators).warnings = []
  | [], _ => rfl
  | v :: vs, operators =>
      Diagnosed.warnings_bind_eq_nil v.groupTermLeft_warnings fun first =>
        Diagnosed.warnings_bind_eq_nil (x := Diagnosed.ofExcept operators.toElements) rfl
          fun os => groupOnto_warnings first os vs
termination_by structural vs => vs

theorem groupOnto_warnings (left : Node) : (operators vs : List Value) →
    (groupOnto left operators vs).warnings = []
  | [], [] | [], _ :: _ | _ :: _, [] => rfl
  | o :: os, v :: vs =>
      Diagnosed.warnings_bind_eq_nil v.groupTermLeft_warnings fun right =>
        Diagnosed.warnings_bind_eq_nil (x := Diagnosed.ofExcept o.toOperation) rfl fun operation =>
          groupOnto_warnings (joined operation left right) os vs
termination_by structural _ vs => vs

theorem Value.groupExprLeft_warnings : (v : Value) → v.groupExprLeft.warnings = []
  | .node n => by
      rw [Value.groupExprLeft]
      split
      · exact n.groupTermLeft_warnings
      · rfl
  | .sequence _ _ | .absent | .truth _ | .whole _ | .real _ | .text _ | .operator _
  | .operation _ | .targetKind _ | .fragment _ _ => rfl
termination_by structural v => v

theorem groupExprsLeft_warnings : (vs : List Value) → (groupExprsLeft vs).warnings = []
  | [] => rfl
  | v :: vs =>
      Diagnosed.warnings_bind_eq_nil v.groupExprLeft_warnings fun _ =>
        Diagnosed.warnings_bind_eq_nil (groupExprsLeft_warnings vs) fun _ => rfl
termination_by structural vs => vs

theorem Value.groupArgumentsLeft_warnings : (v : Value) → v.groupArgumentsLeft.warnings = []
  | .sequence _ items => groupExprsLeft_warnings items
  | .node _ | .absent | .truth _ | .whole _ | .real _ | .text _ | .operator _
  | .operation _ | .targetKind _ | .fragment _ _ => rfl
termination_by structural v => v

end

section

variable {replacement : Node → Diagnosed Fault (Option Replacement)}

mutual

/-- Rebuilding warns of nothing if its replacements do not. -/
theorem Node.rebuildM_warnings_eq_nil (h : ∀ n, (replacement n).warnings = []) : (n : Node) →
    (n.rebuildM replacement).warnings = []
  | ⟨type, span, fields⟩ => by
      have hfields := rebuildFieldsM_warnings_eq_nil h fields
      refine Diagnosed.warnings_bind_eq_nil (h _) fun answer => ?_
      cases answer with
      | some r => rfl
      | none => exact Diagnosed.warnings_bind_eq_nil hfields fun _ => rfl
termination_by structural n => n

theorem Value.rebuildFieldM_warnings_eq_nil (h : ∀ n, (replacement n).warnings = []) :
    (v : Value) → (v.rebuildFieldM replacement).warnings = []
  | .node n => Node.rebuildM_warnings_eq_nil h n
  | .sequence .tuple items =>
      Diagnosed.warnings_bind_eq_nil (rebuildElementsM_warnings_eq_nil h items) fun _ => rfl
  | .sequence .list _ | .absent | .truth _ | .whole _ | .real _ | .text _ | .operator _
  | .operation _ | .targetKind _ | .fragment _ _ => rfl
termination_by structural v => v

theorem rebuildFieldsM_warnings_eq_nil (h : ∀ n, (replacement n).warnings = []) :
    (vs : List Value) → (rebuildFieldsM replacement vs).warnings = []
  | [] => rfl
  | v :: vs =>
      Diagnosed.warnings_bind_eq_nil (Value.rebuildFieldM_warnings_eq_nil h v) fun _ =>
        Diagnosed.warnings_bind_eq_nil (rebuildFieldsM_warnings_eq_nil h vs) fun _ => rfl
termination_by structural vs => vs

theorem Value.rebuildElementM_warnings_eq_nil (h : ∀ n, (replacement n).warnings = []) :
    (v : Value) → (v.rebuildElementM replacement).warnings = []
  | .node n => Node.rebuildM_warnings_eq_nil h n
  | .sequence _ _ | .absent | .truth _ | .whole _ | .real _ | .text _ | .operator _
  | .operation _ | .targetKind _ | .fragment _ _ => rfl
termination_by structural v => v

theorem rebuildElementsM_warnings_eq_nil (h : ∀ n, (replacement n).warnings = []) :
    (vs : List Value) → (rebuildElementsM replacement vs).warnings = []
  | [] => rfl
  | v :: vs =>
      Diagnosed.warnings_bind_eq_nil (Value.rebuildElementM_warnings_eq_nil h v) fun _ =>
        Diagnosed.warnings_bind_eq_nil (rebuildElementsM_warnings_eq_nil h vs) fun _ => rfl
termination_by structural vs => vs

end

end

end Spruce
