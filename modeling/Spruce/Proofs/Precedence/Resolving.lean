import Spruce.Proofs.Precedence.Joining
import Spruce.Proofs.RoundTrip.Grammatical
import Spruce.Proofs.Tree.Fields

set_option autoImplicit false

/-!
# Grouping all expressions of a grammatical tree

Every expression of a grammatical tree can be grouped, so that grouping them all is substitution of
the regrouped for the outermost expressions (`Node.InGrammatical.groupAll_outcome`).

Main definition: `Node.resolved`.
-/

namespace Spruce

/-! ## Nodes of grammatical trees -/

/-- The fields of a node of a grammatical tree hold what they are for, and nodes of the tree. -/
theorem Node.InGrammatical.holds {n : Node} (h : n.InGrammatical) : n.Holds Node.InGrammatical := by
  obtain ⟨place, h⟩ | ⟨_, _, _, -, rfl⟩ | ⟨_, _, _, -, -, rfl⟩ := h
  · induction h with
    | program hitems => exact .cons (holds_children fun n hn => .inl ⟨_, hitems n hn⟩) .nil
    | functionDecl _ _ hblock =>
        exact .cons (holds_label rfl) (.cons (holds_label (directNodes_names _))
          (.cons (holds_child (.inl ⟨_, hblock⟩)) .nil))
    | typeDecl _ _ _ hoptions =>
        exact .cons (holds_label rfl) (.cons (holds_label (directNodes_names _))
          (.cons (holds_children fun n hn => .inl ⟨_, hoptions n hn⟩) .nil))
    | typeOption _ harguments | typeExpr _ harguments | call _ harguments =>
        exact .cons (holds_label rfl)
          (.cons (holds_children fun n hn => .inl ⟨_, harguments n hn⟩) .nil)
    | body hstatements htrailing _ =>
        exact .cons (holds_children fun n hn => .inl ⟨_, hstatements n hn⟩)
          (.cons (holds_optionalChild fun n hn => .inl ⟨_, htrailing n hn⟩) .nil)
    | assign hname hvalue =>
        exact .cons (holds_child (.inr (.inl ⟨_, _, _, hname, rfl⟩)))
          (.cons (holds_child (.inl ⟨_, hvalue⟩)) .nil)
    | caseOf hscrutinee _ hoptions =>
        exact .cons (holds_child (.inl ⟨_, hscrutinee⟩))
          (.cons (holds_children fun n hn => .inl ⟨_, hoptions n hn⟩) .nil)
    | caseOption hname hbindings hvalue =>
        exact .cons (holds_child (.inr (.inr ⟨_, _, _, hname, hbindings, rfl⟩)))
          (.cons (holds_child (.inl ⟨_, hvalue⟩)) .nil)
    | expr _ hterms =>
        exact .cons (holds_children fun n hn => .inl ⟨_, hterms n hn⟩)
          (.cons (holds_label (directNodes_operators _)) .nil)
    | identifier _ => exact .cons (holds_label rfl) .nil
    | number _ _ =>
        exact .cons (holds_label rfl) (.cons (holds_label rfl)
          (.cons (holds_label (directNodes_optionalText _))
            (.cons (holds_label (directNodes_optionalText _)) .nil)))
    | _ => assumption
  · exact .cons (holds_label rfl) (.cons (holds_label rfl) .nil)
  · exact .cons (holds_label rfl) (.cons (holds_label (directNodes_names _)) .nil)

theorem Grammatical.isExpr {n : Node} (h : Grammatical .expression n) : n.isExpr = true := by
  cases h
  rfl

/-- Terms of a grammatical tree are terms in which no operand is missing. -/
theorem Grammatical.isTerm {place : Place} {n : Node} (h : Grammatical place n)
    (hplace : place = .expression ∨ place = .term ∨ place = .call) : IsTerm n := by
  induction h with
  | expr hlength _ ih => exact .expr hlength fun n hn => ih n hn (.inr (.inl rfl))
  | callTerm _ ih => exact ih (.inr (.inr rfl))
  | expressionTerm _ ih => exact ih (.inl rfl)
  | identifier => exact .identifier
  | number => exact .number
  | call _ harguments ih =>
      exact .call (fun n hn => (harguments n hn).isExpr) fun n hn => ih n hn (.inl rfl)
  | _ => simp at hplace

/-- No operand is missing in an expression of a grammatical tree. -/
theorem Node.InGrammatical.isTerm {n : Node} (h : n.InGrammatical) (hexpr : n.isExpr = true) :
    IsTerm n := by
  obtain ⟨place, h⟩ | ⟨_, _, _, -, rfl⟩ | ⟨_, _, _, -, -, rfl⟩ := h
  · induction h with
    | expr hlength hterms => exact (Grammatical.expr hlength hterms).isTerm (.inl rfl)
    | assignmentItem _ ih | assignmentStatement _ ih | callStatement _ ih | caseStatement _ ih
    | assignedCase _ ih | assignedExpression _ ih | armExpression _ ih | armBody _ ih
    | callTerm _ ih | expressionTerm _ ih => exact ih hexpr
    | _ => exact Bool.noConfusion hexpr
  · exact Bool.noConfusion hexpr
  · exact Bool.noConfusion hexpr

/-! ## Grouping all expressions -/

/-- The regrouped expression for each expression, in the given way of grouping. -/
def Grouping.regrouped (g : Grouping) (n : Node) : Option Replacement :=
  if n.isExpr then some (.fresh (.node (n.regroup g.chain))) else none

/-- No expression of a grammatical tree fails to be grouped. -/
theorem Grouping.answers (g : Grouping) :
    Answers g.replacement g.regrouped Node.InGrammatical where
  outcome_eq n hn := by
    rw [Grouping.replacement, Grouping.regrouped]
    split
    · next hexpr =>
        rw [Diagnosed.outcome_bind ((hn.isTerm hexpr).apply_outcome hexpr g)]
        rfl
    · rfl
  below _ hn _ _ hv _ hc := hn.holds.of_mem_fields hv hc

/-- Only nodes are put in the place of nodes. -/
theorem Grouping.exists_node_of_regrouped (g : Grouping) (n : Node) (r : Replacement)
    (h : g.regrouped n = some r) : ∃ m, (Rebuilt.settle n r).value = .node m := by
  rw [Grouping.regrouped] at h
  split at h
  · obtain rfl := Option.some.inj h
    exact ⟨_, rfl⟩
  · exact absurd h.symm (Option.some_ne_none r)

/-- A tree with the outermost expressions regrouped. -/
def Node.resolved (g : Grouping) (n : Node) : Node :=
  ((n.substitute g.regrouped).node?).getD n

theorem substitute_eq_resolved (g : Grouping) (n : Node) :
    n.substitute g.regrouped = .node (n.resolved g) := by
  obtain ⟨m, hm⟩ := exists_node_substitute g.exists_node_of_regrouped n
  rw [Node.resolved, hm]
  rfl

theorem resolved_of_isExpr (g : Grouping) {n : Node} (h : n.isExpr = true) :
    n.resolved g = n.regroup g.chain := by
  have hreplaced : g.regrouped n = some (.fresh (.node (n.regroup g.chain))) := if_pos h
  rw [Node.resolved, substitute_of_some hreplaced]
  rfl

theorem resolved_of_not_isExpr (g : Grouping) {n : Node} (h : ¬n.isExpr = true) :
    n.resolved g = ⟨n.type, n.span, substituteFields g.regrouped n.fields⟩ := by
  rw [Node.resolved, substitute_of_none (if_neg h)]
  rfl

/-- The children of a node other than an expression are resolved one by one. -/
theorem children_resolved (g : Grouping) {n : Node} (h : n.IsFitted) (hexpr : ¬n.isExpr = true)
    {ns : List Node} (hchildren : n.children = ns.map .node) :
    (n.resolved g).children = (ns.map (Node.resolved g)).map .node := by
  rw [resolved_of_not_isExpr g hexpr, h.children_substitute g.exists_node_of_regrouped, hchildren,
    List.map_map, List.map_map]
  exact List.map_congr_left fun c _ => substitute_eq_resolved g c

/-- Grouping all expressions of a grammatical tree resolves it. -/
theorem Node.InGrammatical.groupAll_outcome {n : Node} (h : n.InGrammatical) (g : Grouping) :
    ∃ r, (n.groupAll g).outcome = .ok r ∧ r.value = .node (n.resolved g) := by
  obtain ⟨r, hr, hvalue, -⟩ := g.answers.rebuildM_outcome n h
  exact ⟨r, hr, hvalue.trans (substitute_eq_resolved g n)⟩

end Spruce
