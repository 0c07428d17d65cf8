import Spruce.Proofs.Precedence.Stretches

set_option autoImplicit false

/-!
# Spans of operations and the leaves under them

An operation spans what stands under it from the first of its leaves to the last, and has no span
as soon as one of them has none (`Node.SpansLeaves`). The spans are joined two at a time while a
tree is made, in an order that depends on the way of grouping, but joining is associative
(`Span.join_assoc`), so that only the leaves count. As either way of grouping keeps the leaves in
their order, both give an expression the same span (`joined_spans`).

Main definitions: `Node.leaves`, `Span.over` and `Node.SpansLeaves`.
-/

namespace Spruce

/-! ## Leaves -/

mutual

/-- The leaves under a node: the node itself, or those of the operands of an operation from left to
right. A call is a leaf, whatever its arguments are. -/
def Node.leaves : Node → List Node
  | .binary _ _ left right => left.leavesIn ++ right.leavesIn
  | n => [n]
termination_by structural n => n

/-- The leaves under the node that a value is. -/
def Value.leavesIn : Value → List Node
  | .node n => n.leaves
  | _ => []
termination_by structural v => v

end

/-- What an expression is made of: a call, a name or a number. -/
def Node.IsOperand (n : Node) : Prop :=
  n.type = .call ∨ n.type = .identifier ∨ n.type = .number

/-- A node that spans its leaves, which are operands: from the first to the last if all their spans
are known, and otherwise nothing. -/
structure Node.SpansLeaves (n : Node) : Prop where
  operands : ∀ leaf ∈ n.leaves, leaf.IsOperand
  unknown : ∀ leaf ∈ n.leaves, leaf.span = none → n.span = none
  known : ∀ spans : List Span, n.leaves.map Node.span = spans.map some →
    ∃ first last, spans.head? = some first ∧ spans.getLast? = some last ∧
      n.span = some ⟨first.start, last.stop, first.line, first.column, first.filename⟩

/-! ## Joining spans -/

/-- Spans joined from the first to the last. -/
def Span.over : List (Option Span) → Option Span
  | [] => none
  | [s] => s
  | s :: ss => Span.join s (Span.over ss)

theorem Span.join_assoc (a b c : Option Span) :
    Span.join (Span.join a b) c = Span.join a (Span.join b c) := by
  cases a <;> cases b <;> cases c <;> rfl

theorem Span.over_append {ss ts : List (Option Span)} (hss : ss ≠ []) (hts : ts ≠ []) :
    Span.over (ss ++ ts) = Span.join (Span.over ss) (Span.over ts) := by
  induction ss with
  | nil => exact absurd rfl hss
  | cons s ss ih =>
      cases ss with
      | nil =>
          obtain ⟨t, ts, rfl⟩ := List.exists_cons_of_ne_nil hts
          rfl
      | cons s' ss =>
          have hlater := ih (List.cons_ne_nil s' ss)
          show Span.join s (Span.over (s' :: ss ++ ts)) =
            Span.join (Span.join s (Span.over (s' :: ss))) (Span.over ts)
          rw [hlater, Span.join_assoc]

/-- One unknown span leaves the whole unknown. -/
theorem Span.over_eq_none {ss : List (Option Span)} (h : none ∈ ss) : Span.over ss = none := by
  induction ss with
  | nil => rfl
  | cons s ss ih =>
      cases ss with
      | nil => exact (List.mem_singleton.1 h).symm
      | cons s' ss =>
          show Span.join s (Span.over (s' :: ss)) = none
          rcases List.mem_cons.1 h with rfl | h
          · rfl
          · rw [ih h]
            cases s <;> rfl

/-- Known spans are joined to one that starts with the first and stops with the last. -/
theorem Span.over_map_some (s : Span) (ss : List Span) :
    Span.over ((s :: ss).map some) =
      some { s with stop := ((s :: ss).getLast (by simp)).stop } := by
  induction ss generalizing s with
  | nil => rfl
  | cons s' ss ih =>
      show Span.join (some s) (Span.over ((s' :: ss).map some)) = _
      rw [ih s']
      rfl

/-! ## Trees of chains -/

/-- An operand, or an operation of which the span is joined from those of its leaves. -/
def Node.IsJoined (n : Node) : Prop :=
  (∀ leaf ∈ n.leaves, leaf.IsOperand) ∧ n.leaves ≠ [] ∧
    n.span = Span.over (n.leaves.map Node.span)

theorem Node.IsJoined.spansLeaves {n : Node} (h : n.IsJoined) : n.SpansLeaves := by
  obtain ⟨hoperands, hne, hspan⟩ := h
  refine ⟨hoperands, fun leaf hleaf hnone => ?_, fun spans hspans => ?_⟩
  · rw [hspan]
    exact Span.over_eq_none (List.mem_map.2 ⟨leaf, hleaf, hnone⟩)
  · cases spans with
    | nil => exact absurd (List.map_eq_nil_iff.1 hspans) hne
    | cons s ss =>
        rw [hspan, hspans, Span.over_map_some]
        exact ⟨s, _, rfl, List.getLast?_eq_some_getLast _, rfl⟩

theorem leaves_joined (o : Operation) (left right : Node) :
    (joined o left right).leaves = left.leaves ++ right.leaves := rfl

theorem Node.IsJoined.joined {left right : Node} (o : Operation) (hleft : left.IsJoined)
    (hright : right.IsJoined) : (joined o left right).IsJoined := by
  obtain ⟨hoperands, hne, hspan⟩ := hleft
  obtain ⟨hoperands', hne', hspan'⟩ := hright
  refine ⟨?_, ?_, ?_⟩
  · rw [leaves_joined]
    exact List.forall_mem_append.2 ⟨hoperands, hoperands'⟩
  · rw [leaves_joined]
    exact List.append_ne_nil_of_left_ne_nil hne _
  · rw [leaves_joined, List.map_append, Span.over_append (List.map_eq_nil_iff.not.2 hne)
      (List.map_eq_nil_iff.not.2 hne'), ← hspan, ← hspan']
    rfl

/-- Every node in the tree of a chain is joined if those in its operands are. -/
theorem Joins.isJoined {first tree : Node} {rest : List Pair} (h : Joins first rest tree)
    (hoperands : ∀ n ∈ first :: rest.map Prod.snd, ∀ m, n.Has m → m.IsJoined) :
    ∀ m, tree.Has m → m.IsJoined := by
  induction h with
  | single first => exact hoperands first List.mem_cons_self
  | @join first operand left right before after o _ _ ihleft ihright =>
      rw [List.map_append, List.map_cons, ← List.cons_append] at hoperands
      obtain ⟨hbefore, hafter⟩ := List.forall_mem_append.1 hoperands
      have hleft := ihleft hbefore
      have hright := ihright hafter
      refine Node.forall_has (children_joined o left right)
        (.joined o (hleft left .refl) (hright right .refl)) ?_
      exact List.forall_mem_cons.2 ⟨hleft, List.forall_mem_singleton.2 hright⟩

/-- The leaves of the tree of a chain are those of its operands, one after the other. -/
theorem Joins.leaves_eq {first tree : Node} {rest : List Pair} (h : Joins first rest tree) :
    tree.leaves = (first :: rest.map Prod.snd).flatMap Node.leaves := by
  induction h with
  | single first => exact (List.append_nil _).symm
  | join o _ _ ihleft ihright =>
      rw [leaves_joined, ihleft, ihright, ← List.flatMap_append, List.map_append, List.map_cons]
      rfl

/-! ## Regrouped terms -/

theorem Node.IsOperand.isJoined {n : Node} (h : n.IsOperand) (hleaves : n.leaves = [n]) :
    n.IsJoined := by
  rw [Node.IsJoined, hleaves]
  exact ⟨List.forall_mem_singleton.2 h, List.cons_ne_nil _ _, rfl⟩

/-- Every node in a regrouped term is joined. -/
theorem IsTerm.isJoined_regroup {chain : Node → List Pair → Node}
    (hchain : ∀ first rest, Joins first rest (chain first rest)) {n : Node} (h : IsTerm n) :
    ∀ m, (n.regroup chain).Has m → m.IsJoined := by
  induction n, h using IsTerm.chainInduction with
  | chain span first rest _ ih =>
      rw [regroup_chainExpr]
      apply (hchain _ _).isJoined
      rw [List.map_map]
      intro m hm
      rcases List.mem_cons.1 hm with rfl | hm
      · exact ih first List.mem_cons_self
      · obtain ⟨p, hp, rfl⟩ := List.mem_map.1 hm
        exact ih p.2 (List.mem_cons_of_mem first (List.mem_map_of_mem hp))
  | call span callee arguments _ _ ih =>
      rw [regroup_call]
      have hchildren : ∀ ns : List Node, (Node.call span callee (.nodes ns)).children =
          ns.map .node := fun ns => List.append_nil _
      refine Node.forall_has (hchildren _) (Node.IsOperand.isJoined (.inl rfl) rfl) ?_
      exact List.forall_mem_map.2 ih
  | identifier =>
      intro m hm
      obtain rfl := Node.eq_of_has rfl hm
      exact Node.IsOperand.isJoined (.inr (.inl rfl)) rfl
  | number =>
      intro m hm
      obtain rfl := Node.eq_of_has rfl hm
      exact Node.IsOperand.isJoined (.inr (.inr rfl)) rfl

/-- However the chains of a term are joined, its leaves have the same spans. -/
theorem IsTerm.leafSpans_regroup {chain chain' : Node → List Pair → Node}
    (hchain : ∀ first rest, Joins first rest (chain first rest))
    (hchain' : ∀ first rest, Joins first rest (chain' first rest)) {n : Node} (h : IsTerm n) :
    (n.regroup chain).leaves.map Node.span = (n.regroup chain').leaves.map Node.span := by
  induction n, h using IsTerm.chainInduction with
  | chain span first rest _ ih =>
      -- the leaves of the chain are those of its terms, each regrouped
      have hleaves : ∀ {c : Node → List Pair → Node},
          (∀ first rest, Joins first rest (c first rest)) →
          ((chainExpr span first rest).regroup c).leaves.map Node.span =
            (first :: rest.map Prod.snd).flatMap fun n => (n.regroup c).leaves.map Node.span := by
        intro c hc
        rw [regroup_chainExpr, (hc _ _).leaves_eq, List.map_flatMap, List.map_map,
          List.flatMap_cons, List.flatMap_cons, List.flatMap_map, List.flatMap_map]
        rfl
      rw [hleaves hchain, hleaves hchain']
      exact List.flatMap_congr ih
  | call | identifier | number => rfl

/-! ## Either way of grouping -/

/-- Whichever way an expression is grouped, which never fails if no operand is missing in it, every
operation in its tree spans its leaves. Both ways of grouping give its tree the same span. -/
theorem joined_spans {e : Node} (hexpr : e.isExpr = true) (h : IsTerm e) :
    (∀ g : Grouping, ∃ tree, (g.apply e).outcome = .ok tree ∧
      ∀ b, tree.Has b → b.type = .binary → b.SpansLeaves) ∧
    ∃ tree tree', e.group.outcome = .ok tree ∧ e.groupLeft.outcome = .ok tree' ∧
      tree.span = tree'.span := by
  have hjoined (g : Grouping) := h.isJoined_regroup g.joins_chain
  refine ⟨fun g => ⟨_, h.apply_outcome hexpr g, fun b hb _ => (hjoined g b hb).spansLeaves⟩,
    _, _, h.apply_outcome hexpr .byPrecedence, h.apply_outcome hexpr .leftToRight, ?_⟩
  obtain ⟨-, -, hspan⟩ := hjoined .byPrecedence _ .refl
  obtain ⟨-, -, hspan'⟩ := hjoined .leftToRight _ .refl
  rw [hspan, hspan',
    h.leafSpans_regroup (Grouping.joins_chain .byPrecedence) (Grouping.joins_chain .leftToRight)]

/-- A name as an operand that takes up one character of the first line. -/
def operandAt (offset : Nat) (s : String) : Node :=
  .identifier (some ⟨offset, offset + 1, 1, offset + 1, none⟩) (.text s)

/-- `a - b * (c)`, with the span of each name. -/
def spannedChain : Node :=
  .expr (some ⟨0, 11, 1, 1, none⟩) (.nodes [operandAt 0 "a", operandAt 4 "b",
    .expr (some ⟨9, 10, 1, 10, none⟩) (.nodes [operandAt 9 "c"]) (.operators [])])
    (.operators [.subtract, .multiply])

/-- The whole stops with the name in parentheses, and the product does so too. -/
theorem joined_spans_parenthesised : spannedChain.isExpr = true ∧ IsTerm spannedChain ∧
    ∃ tree, spannedChain.group.outcome = .ok tree ∧ tree.span = some ⟨0, 10, 1, 1, none⟩ ∧
      ∀ b, tree.Has b → b.type = .binary → b.SpansLeaves := by
  have hinner : IsTerm (.expr (some ⟨9, 10, 1, 10, none⟩) (.nodes [operandAt 9 "c"])
      (.operators [])) := .expr rfl (List.forall_mem_singleton.2 .identifier)
  have hterm : IsTerm spannedChain :=
    .expr rfl (List.forall_mem_cons.2 ⟨.identifier, List.forall_mem_cons.2
      ⟨.identifier, List.forall_mem_singleton.2 hinner⟩⟩)
  obtain ⟨hoperations, tree, tree', hgroup, hleft, hspan⟩ := joined_spans rfl hterm
  obtain ⟨_, hgroup', hspans⟩ := hoperations .byPrecedence
  obtain rfl := Except.ok.inj (hgroup.symm.trans hgroup')
  -- taken from left to right the tree is worked out step by step
  have hfolded : spannedChain.groupLeft.outcome = .ok (joined .multiply
      (joined .subtract (operandAt 0 "a") (operandAt 4 "b")) (operandAt 9 "c")) := rfl
  obtain rfl := Except.ok.inj (hfolded.symm.trans hleft)
  exact ⟨rfl, hterm, tree, hgroup, hspan, hspans⟩

end Spruce
