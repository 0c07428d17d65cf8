import Spruce.Proofs.Precedence.Resolving
import Spruce.Proofs.Tree.Descendants

set_option autoImplicit false

/-!
# Programs with all expressions grouped

Grouping all expressions of a grammatical program goes through its nodes by type: what is assigned,
looked at, led to by an arm or given as a value or argument gives way to its tree if it is an
expression, and nothing else changes (`Node.replaceExprs`). No expression is left after that, so
that grouping once more leaves the program as it is; and a program is only left as it is when there
was no expression in it (`groupAll_program`).

Main definitions: `Node.replaceExprs`, `Grouping.tree`, and `Node.IsResolved` for trees in which no
expression is left.
-/

namespace Spruce

/-! ## Replacing expressions by the type of the node -/

mutual

/-- A node with what `f` makes of them in the place of the outermost expressions in it, by the type
of the node. -/
def Node.replaceExprs (f : Node → Node) : Node → Node
  | .program span items => .program span (items.replaceExprs f)
  | .functionDecl span name parameters block =>
      .functionDecl span name parameters (block.replaceExprs f)
  | .assign span destination value => .assign span destination (value.replaceExprs f)
  | .body span statements trailing =>
      .body span (statements.replaceExprs f) (trailing.replaceExprs f)
  | .caseOf span scrutinee options =>
      .caseOf span (scrutinee.replaceExprs f) (options.replaceExprs f)
  | .caseOption span pattern value => .caseOption span pattern (value.replaceExprs f)
  | .call span callee arguments => .call span callee (arguments.replaceExprs f)
  | .expr span terms operators => f (.expr span terms operators)
  | n => n
termination_by structural n => n

/-- The contents of a field with the outermost expressions in it replaced. -/
def Value.replaceExprs (f : Node → Node) : Value → Value
  | .node n => .node (n.replaceExprs f)
  | .sequence kind items => .sequence kind (replaceAllExprs f items)
  | v => v
termination_by structural v => v

/-- Some values with the outermost expressions in them replaced. -/
def replaceAllExprs (f : Node → Node) : List Value → List Value
  | [] => []
  | v :: vs => v.replaceExprs f :: replaceAllExprs f vs
termination_by structural vs => vs

end

theorem replaceExprs_nodes (f : Node → Node) (ns : List Node) :
    (Value.nodes ns).replaceExprs f = .nodes (ns.map (Node.replaceExprs f)) := by
  show Value.tuple (replaceAllExprs f (ns.map .node)) = _
  have hall : replaceAllExprs f (ns.map .node) = (ns.map (Node.replaceExprs f)).map .node := by
    induction ns with
    | nil => rfl
    | cons n ns ih => simp [replaceAllExprs, Value.replaceExprs, ih]
  rw [hall]
  rfl

theorem replaceExprs_optionalNode (f : Node → Node) (n : Option Node) :
    (Value.optionalNode n).replaceExprs f = .optionalNode (n.map (Node.replaceExprs f)) := by
  cases n <;> rfl

/-! ## Resolving field by field -/

section

variable (g : Grouping)

theorem substituteField_node (n : Node) :
    (Value.node n).substituteField g.regrouped = .node (n.resolved g) := by
  rw [Value.substituteField, substitute_eq_resolved]

theorem substituteField_nodes (ns : List Node) :
    (Value.nodes ns).substituteField g.regrouped = .nodes (ns.map (Node.resolved g)) := by
  show Value.tuple (substituteElements g.regrouped (ns.map .node)) = _
  rw [substituteElements_eq, List.map_map, Value.nodes, List.map_map]
  refine congrArg Value.tuple (List.map_congr_left fun n _ => ?_)
  exact substitute_eq_resolved g n

theorem substituteField_optionalNode (n : Option Node) :
    (Value.optionalNode n).substituteField g.regrouped =
      .optionalNode (n.map (Node.resolved g)) := by
  cases n with
  | none => rfl
  | some n => exact substituteField_node g n

/-- The tree of an expression in the given way of grouping; the node itself if it has none. -/
def Grouping.tree (n : Node) : Node :=
  match (g.apply n).outcome with
  | .ok tree => tree
  | .error _ => n

/-- Every expression of a grammatical tree has a tree, that of its regrouped chains. -/
theorem Node.InGrammatical.apply_outcome {n : Node} (h : n.InGrammatical)
    (hexpr : n.isExpr = true) :
    (g.apply n).outcome = .ok (g.tree n) ∧ n.resolved g = g.tree n := by
  have happly := (h.isTerm hexpr).apply_outcome hexpr g
  have htree : g.tree n = n.regroup g.chain := by rw [Grouping.tree, happly]
  rw [htree]
  exact ⟨happly, resolved_of_isExpr g hexpr⟩

/-- Nothing but the fields of a node changes that is no expression. -/
theorem resolved_of_type {type : NodeType} (htype : type ≠ .expr) (span : Option Span)
    (fields : List Value) :
    (⟨type, span, fields⟩ : Node).resolved g =
      ⟨type, span, substituteFields g.regrouped fields⟩ := by
  refine resolved_of_not_isExpr g fun hexpr => htype ?_
  cases type <;> first | rfl | exact Bool.noConfusion hexpr

theorem substituteField_text (s : String) :
    (Value.text s).substituteField g.regrouped = .text s := rfl

theorem substituteField_names (ss : List String) :
    (Value.names ss).substituteField g.regrouped = .names ss :=
  substituteField_of_no_nodes _ (directNodes_names ss)

theorem map_congr_self {f : Node → Node} {ns : List Node} (h : ∀ n ∈ ns, f n = n) :
    ns.map f = ns := by
  rw [List.map_congr_left h, List.map_id']

/-- Types are left as they are. -/
theorem Grammatical.resolved_typeExpr {place : Place} {n : Node} (h : Grammatical place n)
    (hplace : place = .typeExpr ∨ place = .typeOption) : n.resolved g = n := by
  induction h with
  | typeExpr _ _ ih | typeOption _ _ ih =>
      have harguments := map_congr_self fun n hn => ih n hn (.inl rfl)
      simp only [Node.typeExpr, Node.typeOption, ne_eq, reduceCtorEq, not_false_eq_true,
        resolved_of_type g, substituteFields, substituteField_text, substituteField_nodes,
        harguments]
  | _ => simp at hplace

/-- Resolving a grammatical tree replaces its outermost expressions by their trees. -/
theorem Grammatical.resolved_eq {place : Place} {n : Node} (h : Grammatical place n) :
    n.resolved g = n.replaceExprs g.tree := by
  induction h with
  | program _ ih =>
      rw [Node.program, resolved_of_type g (by decide)]
      simp only [substituteFields, substituteField_nodes, List.map_congr_left ih,
        ← replaceExprs_nodes]
      rfl
  | functionDecl _ _ _ ih =>
      rw [Node.functionDecl, resolved_of_type g (by decide)]
      simp only [substituteFields, substituteField_text, substituteField_names,
        substituteField_node, ih]
      rfl
  | typeDecl _ _ _ hoptions _ =>
      have hsame := map_congr_self fun n hn => (hoptions n hn).resolved_typeExpr g (.inr rfl)
      rw [Node.typeDecl, resolved_of_type g (by decide)]
      simp only [substituteFields, substituteField_text, substituteField_names,
        substituteField_nodes, hsame]
      rfl
  | typeOption hname harguments _ =>
      exact (Grammatical.typeOption hname harguments).resolved_typeExpr g (.inr rfl)
  | typeExpr hname harguments _ =>
      exact (Grammatical.typeExpr hname harguments).resolved_typeExpr g (.inl rfl)
  | body _ _ _ ihstatements ihtrailing =>
      rw [Node.body, resolved_of_type g (by decide)]
      simp only [substituteFields, substituteField_nodes, substituteField_optionalNode,
        List.map_congr_left ihstatements, Option.map_congr ihtrailing, ← replaceExprs_nodes,
        ← replaceExprs_optionalNode]
      rfl
  | assign _ _ ih =>
      rw [Node.assign, resolved_of_type g (by decide)]
      simp only [substituteFields, substituteField_node, ih]
      rfl
  | caseOf _ _ _ ihscrutinee ihoptions =>
      rw [Node.caseOf, resolved_of_type g (by decide)]
      simp only [substituteFields, substituteField_nodes, substituteField_node, ihscrutinee,
        List.map_congr_left ihoptions, ← replaceExprs_nodes]
      rfl
  | @caseOption _ patternSpan name bindings _ _ _ _ ih =>
      have hpattern : (Node.casePattern patternSpan (.text name) (.names bindings)).resolved g =
          .casePattern patternSpan (.text name) (.names bindings) := by
        rw [Node.casePattern, resolved_of_type g (by decide)]
        simp only [substituteFields, substituteField_text, substituteField_names]
      rw [Node.caseOption, resolved_of_type g (by decide)]
      simp only [substituteFields, substituteField_node, ih, hpattern]
      rfl
  | expr hlength hterms =>
      exact (Node.InGrammatical.apply_outcome g (.inl ⟨_, .expr hlength hterms⟩) rfl).2
  | call _ _ ih =>
      rw [Node.call, resolved_of_type g (by decide)]
      simp only [substituteFields, substituteField_text, substituteField_nodes,
        List.map_congr_left ih, ← replaceExprs_nodes]
      rfl
  | identifier => rfl
  | number =>
      rw [Node.number, resolved_of_type g (by decide)]
      simp only [substituteFields, substituteField_text,
        substituteField_of_no_nodes _ (directNodes_optionalText _)]
      rfl
  | assignmentItem _ ih | assignmentStatement _ ih | callStatement _ ih | caseStatement _ ih
  | assignedCase _ ih | assignedExpression _ ih | armExpression _ ih | armBody _ ih
  | callTerm _ ih | expressionTerm _ ih => exact ih

end

/-! ## Trees without expressions -/

/-- A tree with no expression in it, and in each field what the field is for. -/
def Node.IsResolved (n : Node) : Prop := ∀ m, n.Has m → m.IsFitted ∧ m.isExpr = false

theorem Node.IsResolved.of_mem_children {n c : Node} (h : n.IsResolved)
    (hc : .node c ∈ n.children) : c.IsResolved := by
  intro m hm
  exact h m (.child hc hm)

/-- A tree has no expression in it if its root is none and its children have none in them. -/
theorem Node.IsResolved.intro {n : Node} (hfitted : n.IsFitted) (hexpr : n.isExpr = false)
    (h : ∀ c, .node c ∈ n.children → c.IsResolved) : n.IsResolved := by
  intro m hm
  cases hm with
  | refl => exact ⟨hfitted, hexpr⟩
  | child hc hm => exact h _ hc m hm

theorem Node.IsResolved.isTree {n : Node} (h : n.IsResolved) : n.IsTree := by
  intro m hm
  exact (h m hm).1.exists_children

/-- A walk over a tree without expressions meets none. -/
theorem Node.IsResolved.walk {n : Node} (h : n.IsResolved) :
    (Value.node n).walk.obstacle = none ∧ ∀ m ∈ (Value.node n).walk.nodes, m.isExpr = false := by
  obtain ⟨hobstacle, hnodes⟩ := walk_of_isTree h.isTree
  refine ⟨hobstacle, fun m hm => ?_⟩
  exact (h m ((hnodes m).1 hm)).2

/-- An operation on trees without expressions is one. -/
theorem isResolved_joined {left right : Node} (o : Operation) (hleft : left.IsResolved)
    (hright : right.IsResolved) : (joined o left right).IsResolved := by
  have hfitted : (joined o left right).IsFitted :=
    .cons trivial (.cons trivial (.cons trivial .nil))
  refine .intro hfitted rfl fun c hc => ?_
  have hc : Value.node c ∈ [Value.node left, Value.node right] := hc
  rcases List.mem_cons.1 hc with hc | hc
  · obtain rfl := Value.node.inj hc
    exact hleft
  · obtain rfl := Value.node.inj (List.mem_singleton.1 hc)
    exact hright

/-- The tree of a chain has no expression in it if its operands have none. -/
theorem Joins.isResolved {first tree : Node} {rest : List Pair} (h : Joins first rest tree)
    (hfirst : first.IsResolved) (hrest : ∀ p ∈ rest, Node.IsResolved p.2) : tree.IsResolved := by
  induction h with
  | single => exact hfirst
  | join o _ _ ihleft ihright =>
      obtain ⟨hbefore, hafter⟩ := List.forall_mem_append.1 hrest
      obtain ⟨hoperand, hafter⟩ := List.forall_mem_cons.1 hafter
      exact isResolved_joined o (ihleft hfirst hbefore) (ihright hoperand hafter)

/-- The tree of a term has no expression in it. -/
theorem Grammatical.isResolved_regroup {chain : Node → List Pair → Node}
    (hchain : ∀ first rest, Joins first rest (chain first rest)) {place : Place} {n : Node}
    (h : Grammatical place n) (hplace : place = .expression ∨ place = .term ∨ place = .call) :
    (n.regroup chain).IsResolved := by
  induction h with
  | @expr _ terms operators hlength _ ih =>
      have hterms : ∀ m ∈ terms.map (Node.regroup chain), m.IsResolved :=
        List.forall_mem_map.2 fun m hm => ih m hm (.inr (.inl rfl))
      cases terms with
      | nil => exact absurd hlength (Nat.succ_ne_zero _).symm
      | cons first others =>
          obtain ⟨hfirst, hothers⟩ := List.forall_mem_cons.1 hterms
          rw [regroup_expr]
          apply (hchain _ _).isResolved hfirst
          intro p hp
          exact hothers _ (List.of_mem_zip hp).2
  | @call span name arguments hname harguments ih =>
      have hregrouped : ∀ m ∈ arguments.map (Node.regroup chain), m.IsResolved :=
        List.forall_mem_map.2 fun m hm => ih m hm (.inl rfl)
      have hcall : (Node.call span (.text name)
          (.nodes (arguments.map (Node.regroup chain)))).Holds Node.IsResolved :=
        .cons (holds_label rfl) (.cons (holds_children hregrouped) .nil)
      rw [regroup_call]
      exact .intro hcall.isFitted rfl fun c hc => hcall.of_mem_children hc
  | identifier hname =>
      exact .intro (Node.InGrammatical.holds (.inl ⟨_, .identifier hname⟩)).isFitted rfl
        fun c hc => absurd hc List.not_mem_nil
  | number hsign hpieces =>
      exact .intro (Node.InGrammatical.holds (.inl ⟨_, .number hsign hpieces⟩)).isFitted rfl
        fun c hc => absurd hc List.not_mem_nil
  | callTerm _ ih => exact ih (.inr (.inr rfl))
  | expressionTerm _ ih => exact ih (.inl rfl)
  | _ => simp at hplace

/-- Expressions in a grammatical tree stand where expressions can. -/
theorem Node.InGrammatical.expression {n : Node} (h : n.InGrammatical) (hexpr : n.isExpr = true) :
    Grammatical .expression n := by
  obtain ⟨place, h⟩ | ⟨_, _, _, -, rfl⟩ | ⟨_, _, _, -, -, rfl⟩ := h
  · induction h with
    | expr hlength hterms => exact .expr hlength hterms
    | assignmentItem _ ih | assignmentStatement _ ih | callStatement _ ih | caseStatement _ ih
    | assignedCase _ ih | assignedExpression _ ih | armExpression _ ih | armBody _ ih
    | callTerm _ ih | expressionTerm _ ih => exact ih hexpr
    | _ => exact Bool.noConfusion hexpr
  · exact Bool.noConfusion hexpr
  · exact Bool.noConfusion hexpr

theorem isExpr_substituteFields (f : Node → Option Replacement) (n : Node) :
    (⟨n.type, n.span, substituteFields f n.fields⟩ : Node).isExpr = n.isExpr := by
  obtain ⟨type, span, fields⟩ := n
  cases type with
  | expr => rcases fields with _ | ⟨_, _ | ⟨_, _ | _⟩⟩ <;> rfl
  | _ => rfl

/-- No expression is left in a grammatical tree when all are grouped. -/
theorem Node.InGrammatical.isResolved_resolved (g : Grouping) {n : Node} (h : n.InGrammatical) :
    (n.resolved g).IsResolved := by
  by_cases hexpr : n.isExpr = true
  · rw [resolved_of_isExpr g hexpr]
    exact (h.expression hexpr).isResolved_regroup g.joins_chain (.inl rfl)
  · have hfitted := h.holds.isFitted
    obtain ⟨ns, hchildren⟩ := hfitted.exists_children
    refine .intro ?_ ?_ fun c hc => ?_
    · rw [resolved_of_not_isExpr g hexpr]
      exact hfitted.substitute g.exists_node_of_regrouped
    · rw [resolved_of_not_isExpr g hexpr, isExpr_substituteFields]
      exact Bool.eq_false_iff.2 hexpr
    · rw [children_resolved g hfitted hexpr hchildren] at hc
      obtain ⟨m, hm, hc⟩ := List.mem_map.1 hc
      obtain rfl := Value.node.inj hc
      obtain ⟨child, hchild, rfl⟩ := List.mem_map.1 hm
      have hmem : Value.node child ∈ n.children := hchildren ▸ List.mem_map_of_mem hchild
      exact (h.holds.of_mem_children hmem).isResolved_resolved g
termination_by n.size
decreasing_by exact size_lt_of_mem_children hmem

/-! ## Whole programs -/

theorem Node.InGrammatical.of_has {n m : Node} (h : n.InGrammatical) (hm : n.Has m) :
    m.InGrammatical := by
  induction hm with
  | refl => exact h
  | child hc _ ih => exact ih (h.holds.of_mem_children hc)

/-- A grammatical tree without expressions is one in which none is left. -/
theorem Node.InGrammatical.isResolved {n : Node} (h : n.InGrammatical)
    (hexprs : ∀ m, n.Has m → m.isExpr = false) : n.IsResolved := by
  intro m hm
  exact ⟨(h.of_has hm).holds.isFitted, hexprs m hm⟩

theorem Node.InGrammatical.isTree {n : Node} (h : n.InGrammatical) : n.IsTree := by
  intro m hm
  exact (h.of_has hm).holds.isFitted.exists_children

/-- In a tree without expressions there is nothing to group. -/
theorem Grouping.answers_of_isResolved (g : Grouping) :
    Answers g.replacement (fun _ => none) Node.IsResolved where
  outcome_eq n hn := by
    obtain ⟨-, hexpr⟩ := hn n .refl
    rw [Grouping.replacement, hexpr]
    rfl
  below n hn _ v hv c hc := by
    obtain ⟨hfitted, -⟩ := hn n .refl
    apply hn.of_mem_children
    rw [hfitted.children_eq]
    exact List.mem_flatMap.2 ⟨v, hv, hc⟩

/-- Grouping leaves a tree without expressions as it is. -/
theorem Node.IsResolved.groupAll_outcome (g : Grouping) {n : Node} (h : n.IsResolved) :
    (n.groupAll g).outcome = .ok (Rebuilt.same (.node n)) :=
  (Grouping.answers_of_isResolved g).rebuildM_same n h

/-- Grouping leaves a grammatical tree as it is just when there is no expression in it. -/
theorem Node.InGrammatical.isKept_iff (g : Grouping) {n : Node} (h : n.InGrammatical) {r : Rebuilt}
    (hr : (n.groupAll g).outcome = .ok r) :
    r.sharing.isKept = true ↔ ∀ m ∈ (Value.node n).walk.nodes, m.isExpr = false := by
  constructor
  · intro hkept
    obtain ⟨r', hr', -, hsame⟩ := g.answers.rebuildM_outcome n h
    obtain rfl := Except.ok.inj (hr'.symm.trans hr)
    have hresolved : n.resolved g = n := by
      have heq := hsame hkept
      rw [substitute_eq_resolved] at heq
      exact Value.node.inj heq
    exact (hresolved ▸ h.isResolved_resolved g).walk.2
  · intro hexprs
    have hresolved : n.IsResolved := h.isResolved fun m hm =>
      hexprs m (((walk_of_isTree h.isTree).2 m).2 hm)
    obtain rfl := Except.ok.inj ((hresolved.groupAll_outcome g).symm.trans hr)
    rfl

/-- Grouping all expressions of a grammatical program puts its tree in the place of each outermost
expression and leaves all else as it is. No expression is left after that, at whatever depth, so
that grouping once more, in either way, gives back the very tree; and the program itself comes out
just when there was no expression in it. -/
theorem groupAll_program (g : Grouping) (p : Node) (h : Grammatical .program p) :
    ∃ r, (p.groupAll g).outcome = .ok r ∧
      r.value = .node (p.replaceExprs g.tree) ∧
      (∀ e, p.Has e → e.isExpr = true → (g.apply e).outcome = .ok (g.tree e)) ∧
      r.value.walk.obstacle = none ∧
      (∀ n ∈ r.value.walk.nodes, n.isExpr = false) ∧
      (r.sharing.isKept = true ↔ ∀ n ∈ (Value.node p).walk.nodes, n.isExpr = false) ∧
      ∀ again : Grouping, ((p.replaceExprs g.tree).groupAll again).outcome =
        .ok (Rebuilt.same r.value) := by
  have hin : p.InGrammatical := .inl ⟨_, h⟩
  obtain ⟨r, hr, hvalue⟩ := hin.groupAll_outcome g
  have hresolved := hin.isResolved_resolved g
  rw [h.resolved_eq] at hvalue hresolved
  obtain ⟨hobstacle, hnodes⟩ := hresolved.walk
  refine ⟨r, hr, hvalue, ?_, ?_, ?_, hin.isKept_iff g hr, ?_⟩
  · intro e he hexpr
    exact ((hin.of_has he).apply_outcome g hexpr).1
  · rw [hvalue, hobstacle]
  · rw [hvalue]
    exact hnodes
  · intro again
    rw [hvalue]
    exact hresolved.groupAll_outcome again

/-- The program `f() { g(x + y) }` with `argument` for what `g` is called with. -/
def callProgram (argument : Node) : Node :=
  .program none (.nodes [.functionDecl none (.text "f") (.names []) (.node
    (.body none (.nodes [.call none (.text "g") (.nodes [argument])]) (.optionalNode none)))])

/-- In `f() { g(x + y) }` the sum is grouped, and nothing else changes. -/
theorem groupAll_program_argument :
    ∃ r, ((callProgram (.expr none
        (.nodes [.identifier none (.text "x"), .identifier none (.text "y")])
        (.operators [.add]))).groupAll .leftToRight).outcome = .ok r ∧
      r.value = .node (callProgram (.binary none (.operation .add)
        (.node (.identifier none (.text "x"))) (.node (.identifier none (.text "y"))))) := by
  have hterms : ∀ n ∈ [Node.identifier none (.text "x"), Node.identifier none (.text "y")],
      Grammatical .term n := by
    intro n hn
    rcases List.mem_cons.1 hn with rfl | hn
    · exact .identifier (by decide)
    · obtain rfl := List.mem_singleton.1 hn
      exact .identifier (by decide)
  have hsum : Grammatical .expression (.expr none (.nodes [.identifier none (.text "x"),
      .identifier none (.text "y")]) (.operators [.add])) := .expr rfl hterms
  have hcall : Grammatical .call (.call none (.text "g") (.nodes [_])) :=
    .call (by decide) (List.forall_mem_singleton.2 hsum)
  have hbody : Grammatical .body (.body none (.nodes [_]) (.optionalNode none)) :=
    .body (List.forall_mem_singleton.2 (.callStatement hcall))
      (fun _ hn => absurd hn (Option.not_mem_none _))
      (fun _ hn => absurd hn (Option.not_mem_none _))
  have hitem : Grammatical .item (.functionDecl none (.text "f") (.names []) (.node _)) :=
    .functionDecl (by decide) (fun _ hs => absurd hs List.not_mem_nil) hbody
  have hprogram : Grammatical .program (.program none (.nodes [_])) :=
    .program (List.forall_mem_singleton.2 hitem)
  obtain ⟨r, hr, hvalue, -⟩ := groupAll_program .leftToRight _ hprogram
  exact ⟨r, hr, hvalue⟩

end Spruce
