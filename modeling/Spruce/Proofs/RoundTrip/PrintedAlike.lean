import Spruce.Proofs.RoundTrip.Printing
import Spruce.Proofs.Tree.Equality

set_option autoImplicit false

/-!
# Trees that are printed alike

How a node is printed depends on how its parts are, and on nothing else about them. For each kind of
node there is one lemma that says so, in the terms of the places that the node and its parts stand
in (`PrintsAlike`). What equals a grammatical tree is therefore grammatical and printed alike, as
spans are not printed (`Grammatical.of_equal`).

Main definition: `PrintsAlike`.
-/

namespace Spruce

/-! ## Places -/

/-- Two nodes for a place are printed alike there. Where the printed form has several lines, this
holds for any indentation. -/
def PrintsAlike : Place → (m n : Node) → Prop
  | .program, m, n => m.printProgram = n.printProgram
  | .item, m, n => (Value.node m).printItem [] = (Value.node n).printItem []
  | .typeOption, m, n => (Value.node m).printTypeOption = (Value.node n).printTypeOption
  | .typeExpr, m, n => m.printTypeExpr = n.printTypeExpr
  | .body, m, n => m.isBody = true ∧ n.isBody = true ∧
      ∀ indent, m.printBodyLines indent = n.printBodyLines indent
  | .statement, m, n => ∀ indent, m.printStatement indent = n.printStatement indent
  | .assignment, m, n => (Value.node m).printItem [] = (Value.node n).printItem [] ∧
      ∀ indent, m.printStatement indent = n.printStatement indent
  | .assigned, m, n => ∀ indent, m.printValued indent = n.printValued indent
  | .caseOf, m, n => ∀ indent, m.printValued indent = n.printValued indent ∧
      m.printStatement indent = n.printStatement indent
  | .caseOption, m, n =>
      ∀ indent, (Value.node m).printArm indent = (Value.node n).printArm indent
  | .arm, m, n =>
      ∀ indent, (Value.node m).printArmValue indent = (Value.node n).printArmValue indent
  | .expression, m, n => m.isExpr = true ∧ n.isExpr = true ∧ m.printExpr = n.printExpr
  | .term, m, n => m.printTerm = n.printTerm
  | .call, m, n => m.printTerm = n.printTerm ∧
      ∀ indent, m.printStatement indent = n.printStatement indent

/-- Nodes that are printed alike one by one. -/
abbrev AllPrintAlike (place : Place) (ms ns : List Node) : Prop :=
  List.Forall₂ (PrintsAlike place) ms ns

/-- Nodes that are printed alike by a printer one by one are printed alike as a sequence. -/
theorem mapM_nodes_congr {α : Type} {p : Value → Except Fault α} {ms ns : List Node}
    (h : List.Forall₂ (fun m n => p (.node m) = p (.node n)) ms ns) :
    (ms.map Value.node).mapM p = (ns.map Value.node).mapM p := by
  induction h with
  | nil => rfl
  | cons hfirst _ ih =>
      rw [List.map_cons, List.map_cons, List.mapM_cons, List.mapM_cons, hfirst, ih]

/-! ## One lemma for each kind of node -/

namespace PrintsAlike

variable {span span' targetSpan targetSpan' : Option Span} {m n : Node} {ms ns : List Node}

theorem program (h : AllPrintAlike .item ms ns) :
    PrintsAlike .program (.program span (.nodes ms)) (.program span' (.nodes ns)) := by
  have hitems : (ms.map Value.node).mapM (Value.printItem []) =
      (ns.map Value.node).mapM (Value.printItem []) := mapM_nodes_congr h
  show (do pure (linesText (← (ms.map Value.node).mapM (Value.printItem [])))) = _
  rw [hitems]
  rfl

theorem functionDecl (name parameters : Value) (h : PrintsAlike .body m n) :
    PrintsAlike .item (.functionDecl span name parameters (.node m))
      (.functionDecl span' name parameters (.node n)) := by
  obtain ⟨-, -, hlines⟩ := h
  show (do
    let names ← parameters.toTexts
    let lines ← m.printBodyLines (deeper [])
    pure ([] ++ name.display ++ parenthesised names ++ ' ' :: bracedLines [] lines)) = _
  rw [hlines]
  rfl

theorem typeDecl (name parameters : Value) (h : AllPrintAlike .typeOption ms ns) :
    PrintsAlike .item (.typeDecl span name parameters (.nodes ms))
      (.typeDecl span' name parameters (.nodes ns)) := by
  have hoptions : (ms.map Value.node).mapM Value.printTypeOption =
      (ns.map Value.node).mapM Value.printTypeOption := mapM_nodes_congr h
  show (do
    let names ← parameters.printTypeParameters
    let lines ← (ms.map Value.node).mapM Value.printTypeOption
    pure ([] ++ "type ".toList ++ name.display ++ names ++
      ' ' :: bracedLines [] (lines.map fun line => deeper [] ++ line))) = _
  rw [hoptions]
  rfl

theorem assignmentItem (h : PrintsAlike .assignment m n) : PrintsAlike .item m n := h.1

theorem typeArguments (h : AllPrintAlike .typeExpr ms ns) :
    (Value.nodes ms).printTypeArguments = (Value.nodes ns).printTypeArguments := by
  cases h with
  | nil => rfl
  | @cons m n ms ns hfirst hlater =>
      have harguments : ((m :: ms).map Value.node).mapM Value.printTypeExpr =
          ((n :: ns).map Value.node).mapM Value.printTypeExpr :=
        mapM_nodes_congr (.cons hfirst hlater)
      rw [← printTypeExprs_eq_mapM, ← printTypeExprs_eq_mapM] at harguments
      show (do pure (parenthesised (← printTypeExprs ((m :: ms).map Value.node)))) = _
      rw [harguments]
      rfl

theorem typeOption (name : Value) (h : AllPrintAlike .typeExpr ms ns) :
    PrintsAlike .typeOption (.typeOption span name (.nodes ms))
      (.typeOption span' name (.nodes ns)) := by
  show (do
    let tail ← (Value.nodes ms).printTypeArguments
    pure ((← name.toText) ++ tail)) = _
  rw [typeArguments h]
  rfl

theorem typeExpr (name : Value) (h : AllPrintAlike .typeExpr ms ns) :
    PrintsAlike .typeExpr (.typeExpr span name (.nodes ms)) (.typeExpr span' name (.nodes ns)) := by
  show (do
    let tail ← (Value.nodes ms).printTypeArguments
    pure ((← name.toText) ++ tail)) = _
  rw [typeArguments h]
  rfl

theorem statements (indent : Text) (h : AllPrintAlike .statement ms ns) :
    (Value.nodes ms).printStatements indent = (Value.nodes ns).printStatements indent := by
  show printStatementLines indent (ms.map .node) = printStatementLines indent (ns.map .node)
  rw [printStatementLines_eq_mapM, printStatementLines_eq_mapM]
  exact mapM_nodes_congr (h.imp fun _ _ h => h indent)

theorem body {k l : Option Node} (h : AllPrintAlike .statement ms ns)
    (hvalue : Option.Rel (PrintsAlike .assigned) k l) :
    PrintsAlike .body (.body span (.nodes ms) (.optionalNode k))
      (.body span' (.nodes ns) (.optionalNode l)) := by
  refine ⟨rfl, rfl, fun indent => ?_⟩
  cases hvalue with
  | none =>
      show ((Value.nodes ms).printStatements indent >>= fun lines => pure lines) = _
      rw [statements indent h]
      rfl
  | @some k l hvalue =>
      show (do
        let lines ← (Value.nodes ms).printStatements indent
        let last ← k.printValued indent
        pure (lines ++ [indent ++ (← last.toText)])) = _
      rw [statements indent h, hvalue indent]
      rfl

theorem assignmentStatement (h : PrintsAlike .assignment m n) : PrintsAlike .statement m n := h.2

theorem callStatement (h : PrintsAlike .call m n) : PrintsAlike .statement m n := h.2

theorem caseStatement (h : PrintsAlike .caseOf m n) : PrintsAlike .statement m n :=
  fun indent => (h indent).2

theorem assign (kind : TargetKind) (name : Value) (h : PrintsAlike .assigned m n) :
    PrintsAlike .assignment
      (.assign span (.node (.target targetSpan (.targetKind kind) name)) (.node m))
      (.assign span' (.node (.target targetSpan' (.targetKind kind) name)) (.node n)) := by
  have hstatement : ∀ indent,
      (Node.assign span (.node (.target targetSpan (.targetKind kind) name))
        (.node m)).printStatement indent =
      (Node.assign span' (.node (.target targetSpan' (.targetKind kind) name))
        (.node n)).printStatement indent := by
    intro indent
    show (do
      pure (indent ++ assignmentText kind name.display ++
        ' ' :: (← m.printValued indent).display)) = _
    rw [h indent]
    rfl
  exact ⟨hstatement [], hstatement⟩

theorem assignedCase (h : PrintsAlike .caseOf m n) : PrintsAlike .assigned m n :=
  fun indent => (h indent).1

theorem caseOf {k l : Node} (hscrutinee : PrintsAlike .expression k l)
    (h : AllPrintAlike .caseOption ms ns) :
    PrintsAlike .caseOf (.caseOf span (.node k) (.nodes ms))
      (.caseOf span' (.node l) (.nodes ns)) := by
  obtain ⟨-, -, hexpr⟩ := hscrutinee
  intro indent
  have harms : printArmLines (deeper indent) (ms.map .node) =
      printArmLines (deeper indent) (ns.map .node) := by
    rw [printArmLines_eq_mapM, printArmLines_eq_mapM]
    exact mapM_nodes_congr (h.imp fun _ _ h => congrArg _ (h (deeper indent)))
  constructor
  · show (do
      let arms ← printArmLines (deeper indent) (ms.map .node)
      pure (Piece.text (caseText indent (← k.printExpr) arms))) = _
    rw [harms, hexpr]
    rfl
  · show (do
      let arms ← printArmLines (deeper indent) (ms.map .node)
      pure (indent ++ caseText indent (← k.printExpr) arms)) = _
    rw [harms, hexpr]
    rfl

theorem caseOption {patternSpan patternSpan' : Option Span} (name bindings : Value)
    (h : PrintsAlike .arm m n) :
    PrintsAlike .caseOption
      (.caseOption span (.node (.casePattern patternSpan name bindings)) (.node m))
      (.caseOption span' (.node (.casePattern patternSpan' name bindings)) (.node n)) := by
  intro indent
  show (do
    let left ← (Value.node (.casePattern patternSpan name bindings)).printPattern
    pure (left ++ " -> ".toList ++ (← (Value.node m).printArmValue indent))) = _
  rw [h indent]
  rfl

theorem armBody (h : PrintsAlike .body m n) : PrintsAlike .arm m n := by
  obtain ⟨hm, hn, hlines⟩ := h
  intro indent
  show (if m.isBody = true then
      do pure (bracedLines indent (← m.printBodyLines (deeper indent)))
    else m.printExpr) =
    if n.isBody = true then do pure (bracedLines indent (← n.printBodyLines (deeper indent)))
    else n.printExpr
  rw [if_pos hm, if_pos hn, hlines]

end PrintsAlike

/-! ## Expressions -/

theorem Node.exists_of_isExpr {n : Node} (h : n.isExpr = true) :
    ∃ span terms operators, n = .expr span terms operators := by
  unfold Node.isExpr at h
  split at h
  · exact ⟨_, _, _, rfl⟩
  · exact Bool.noConfusion h

/-- An expression as a term is printed in parentheses. -/
theorem Node.printTerm_of_isExpr {n : Node} (h : n.isExpr = true) :
    n.printTerm = (do pure (Piece.text (parenthesised [← n.printExpr]))) := by
  obtain ⟨_, _, _, rfl⟩ := n.exists_of_isExpr h
  rfl

theorem Node.printValued_of_isExpr {n : Node} (h : n.isExpr = true) (indent : Text) :
    n.printValued indent = (do pure (Piece.text (← n.printExpr))) := by
  obtain ⟨_, _, _, rfl⟩ := n.exists_of_isExpr h
  rfl

theorem Node.printArmValue_of_isExpr {n : Node} (h : n.isExpr = true) (indent : Text) :
    (Value.node n).printArmValue indent = n.printExpr := by
  obtain ⟨_, _, _, rfl⟩ := n.exists_of_isExpr h
  rfl

namespace PrintsAlike

variable {span span' : Option Span} {m n : Node} {ms ns : List Node}

theorem operands (operators : List Value) (h : AllPrintAlike .term ms ns) :
    printOperands operators (ms.map .node) = printOperands operators (ns.map .node) := by
  induction h generalizing operators with
  | nil => rfl
  | @cons m n ms ns hfirst _ ih =>
      cases operators with
      | nil => rfl
      | cons o os =>
          have hterm : (Value.node m).printTerm = (Value.node n).printTerm := hfirst
          rw [List.map_cons, List.map_cons, printOperands, printOperands, hterm, ih os]

theorem expr (operators : Value) (h : AllPrintAlike .term ms ns) :
    PrintsAlike .expression (.expr span (.nodes ms) operators)
      (.expr span' (.nodes ns) operators) := by
  refine ⟨rfl, rfl, ?_⟩
  cases h with
  | nil => rfl
  | @cons m n ms ns hfirst hlater =>
      have hterm : m.printTerm = n.printTerm := hfirst
      show (do
        let first ← m.printTerm
        spaced (first :: (← printOperands (← operators.toElements) (ms.map .node)))) = _
      simp only [hterm, operands _ hlater]
      rfl

theorem call (callee : Value) (h : AllPrintAlike .expression ms ns) :
    PrintsAlike .call (.call span callee (.nodes ms)) (.call span' callee (.nodes ns)) := by
  have harguments : (Value.nodes ms).printArguments = (Value.nodes ns).printArguments := by
    show printExprs (ms.map .node) = printExprs (ns.map .node)
    rw [printExprs_eq_mapM, printExprs_eq_mapM]
    exact mapM_nodes_congr (h.imp fun _ _ h => h.2.2)
  constructor
  · show (do pure (Piece.text (callee.display ++
      parenthesised (← (Value.nodes ms).printArguments)))) = _
    rw [harguments]
    rfl
  · intro indent
    show (do pure (indent ++ callee.display ++
      parenthesised (← (Value.nodes ms).printArguments))) = _
    rw [harguments]
    rfl

theorem callTerm (h : PrintsAlike .call m n) : PrintsAlike .term m n := h.1

theorem expressionTerm (h : PrintsAlike .expression m n) : PrintsAlike .term m n := by
  obtain ⟨hm, hn, hprint⟩ := h
  rw [PrintsAlike, m.printTerm_of_isExpr hm, n.printTerm_of_isExpr hn, hprint]

theorem assignedExpression (h : PrintsAlike .expression m n) : PrintsAlike .assigned m n := by
  obtain ⟨hm, hn, hprint⟩ := h
  intro indent
  rw [m.printValued_of_isExpr hm, n.printValued_of_isExpr hn, hprint]

theorem armExpression (h : PrintsAlike .expression m n) : PrintsAlike .arm m n := by
  obtain ⟨hm, hn, hprint⟩ := h
  intro indent
  rw [m.printArmValue_of_isExpr hm, n.printArmValue_of_isExpr hn, hprint]

end PrintsAlike

/-! ## Equal trees -/

/-- A call is told by its type and the number of its fields. -/
theorem Node.isCall_eq_of_equal {m n : Node} (h : m.equal n = true) : m.isCall = n.isCall := by
  obtain ⟨type, span, fields⟩ := m
  obtain ⟨_, _, rfl, hfields⟩ := Node.exists_of_equal h
  rcases hfields with _ | ⟨_, _ | ⟨_, _ | _⟩⟩ <;> cases type <;> rfl

theorem Node.isLoneCall_eq_of_equal {m n : Node} (h : Grammatical .expression m)
    (hequal : m.equal n = true) : m.isLoneCall = n.isLoneCall := by
  cases h with
  | expr hlength hterms =>
      obtain ⟨_, _, rfl, _ | ⟨hnodes, _ | ⟨_, _ | _⟩⟩⟩ := Node.exists_of_equal hequal
      obtain ⟨_, rfl, hsame⟩ := Value.exists_nodes_of_equal hnodes
      rcases hsame with _ | ⟨hfirst, _ | _⟩
      · rfl
      · exact Node.isCall_eq_of_equal hfirst
      · rfl

theorem ne_nil_of_equal {ms ns : List Node} (h : ms ≠ [])
    (hequal : List.Forall₂ (fun m n => m.equal n = true) ms ns) : ns ≠ [] := by
  rintro rfl
  exact h (List.forall₂_nil_right_iff.1 hequal)

/-- What holds of all that equals one of some nodes holds of nodes that equal them one by one. -/
theorem forall_of_equal {P : Node → Prop} {place : Place} {ms ns : List Node}
    (h : ∀ m ∈ ms, ∀ n, m.equal n = true → P n ∧ PrintsAlike place m n)
    (hequal : List.Forall₂ (fun m n => m.equal n = true) ms ns) :
    (∀ n ∈ ns, P n) ∧ AllPrintAlike place ms ns := by
  induction hequal with
  | nil => exact ⟨fun _ hn => absurd hn List.not_mem_nil, .nil⟩
  | cons hfirst _ ih =>
      obtain ⟨hm, hms⟩ := List.forall_mem_cons.1 h
      obtain ⟨hn, halike⟩ := hm _ hfirst
      obtain ⟨hns, hall⟩ := ih hms
      exact ⟨List.forall_mem_cons.2 ⟨hn, hns⟩, .cons halike hall⟩

/-- What equals a grammatical tree is grammatical, and is printed alike. -/
theorem Grammatical.of_equal {place : Place} {m n : Node} (h : Grammatical place m)
    (hequal : m.equal n = true) : Grammatical place n ∧ PrintsAlike place m n := by
  induction h generalizing n with
  | program _ ih =>
      obtain ⟨_, _, rfl, _ | ⟨hitems, _ | _⟩⟩ := Node.exists_of_equal hequal
      obtain ⟨items, rfl, hsame⟩ := Value.exists_nodes_of_equal hitems
      obtain ⟨hall, halike⟩ := forall_of_equal (fun m hm n => ih m hm) hsame
      exact ⟨.program hall, .program halike⟩
  | functionDecl hname hparameters _ ih =>
      obtain ⟨_, _, rfl, _ | ⟨hn, _ | ⟨hps, _ | ⟨hb, _ | _⟩⟩⟩⟩ := Node.exists_of_equal hequal
      obtain rfl := Value.isExact_text _ _ hn
      obtain rfl := Value.isExact_names _ _ hps
      obtain ⟨block, rfl, hb⟩ := Value.exists_node_of_equal hb
      obtain ⟨hblock, halike⟩ := ih hb
      exact ⟨.functionDecl hname hparameters hblock, .functionDecl _ _ halike⟩
  | typeDecl hname hparameters hne _ ih =>
      obtain ⟨_, _, rfl, _ | ⟨hn, _ | ⟨hps, _ | ⟨hos, _ | _⟩⟩⟩⟩ := Node.exists_of_equal hequal
      obtain rfl := Value.isExact_text _ _ hn
      obtain rfl := Value.isExact_names _ _ hps
      obtain ⟨options, rfl, hsame⟩ := Value.exists_nodes_of_equal hos
      obtain ⟨hall, halike⟩ := forall_of_equal (fun m hm n => ih m hm) hsame
      exact ⟨.typeDecl hname hparameters (ne_nil_of_equal hne hsame) hall, .typeDecl _ _ halike⟩
  | assignmentItem _ ih => exact (ih hequal).imp .assignmentItem .assignmentItem
  | typeOption hname _ ih =>
      obtain ⟨_, _, rfl, _ | ⟨hn, _ | ⟨has, _ | _⟩⟩⟩ := Node.exists_of_equal hequal
      obtain rfl := Value.isExact_text _ _ hn
      obtain ⟨arguments, rfl, hsame⟩ := Value.exists_nodes_of_equal has
      obtain ⟨hall, halike⟩ := forall_of_equal (fun m hm n => ih m hm) hsame
      exact ⟨.typeOption hname hall, .typeOption _ halike⟩
  | typeExpr hname _ ih =>
      obtain ⟨_, _, rfl, _ | ⟨hn, _ | ⟨has, _ | _⟩⟩⟩ := Node.exists_of_equal hequal
      obtain rfl := Value.isExact_text _ _ hn
      obtain ⟨arguments, rfl, hsame⟩ := Value.exists_nodes_of_equal has
      obtain ⟨hall, halike⟩ := forall_of_equal (fun m hm n => ih m hm) hsame
      exact ⟨.typeExpr hname hall, .typeExpr _ halike⟩
  | body _ htrailing hcall ih ihtrailing =>
      obtain ⟨_, _, rfl, _ | ⟨hss, _ | ⟨ht, _ | _⟩⟩⟩ := Node.exists_of_equal hequal
      obtain ⟨statements, rfl, hsame⟩ := Value.exists_nodes_of_equal hss
      obtain ⟨trailing, rfl, hvalue⟩ := Value.exists_optionalNode_of_equal ht
      obtain ⟨hall, halike⟩ := forall_of_equal (fun m hm n => ih m hm) hsame
      cases hvalue with
      | none =>
          exact ⟨.body hall (fun _ hn => nomatch hn) (fun _ hn => nomatch hn),
            .body halike .none⟩
      | @some m k hsome =>
          obtain ⟨hk, hkalike⟩ := ihtrailing m rfl hsome
          have hlone : k.isLoneCall = false :=
            (Node.isLoneCall_eq_of_equal (htrailing m rfl) hsome).symm.trans (hcall m rfl)
          refine ⟨.body hall (fun n hn => ?_) (fun n hn => ?_),
            .body halike (.some (.assignedExpression hkalike))⟩
          · obtain rfl := Option.some.inj hn
            exact hk
          · obtain rfl := Option.some.inj hn
            exact hlone
  | assignmentStatement _ ih => exact (ih hequal).imp .assignmentStatement .assignmentStatement
  | callStatement _ ih => exact (ih hequal).imp .callStatement .callStatement
  | caseStatement _ ih => exact (ih hequal).imp .caseStatement .caseStatement
  | assign hname _ ih =>
      obtain ⟨_, _, rfl, _ | ⟨ht, _ | ⟨hv, _ | _⟩⟩⟩ := Node.exists_of_equal hequal
      obtain ⟨target, rfl, ht⟩ := Value.exists_node_of_equal ht
      obtain ⟨_, _, rfl, _ | ⟨hk, _ | ⟨hn, _ | _⟩⟩⟩ := Node.exists_of_equal ht
      obtain rfl := Value.isExact_targetKind _ _ hk
      obtain rfl := Value.isExact_text _ _ hn
      obtain ⟨value, rfl, hv⟩ := Value.exists_node_of_equal hv
      obtain ⟨hvalue, halike⟩ := ih hv
      exact ⟨.assign hname hvalue, .assign _ _ halike⟩
  | assignedCase _ ih => exact (ih hequal).imp .assignedCase .assignedCase
  | assignedExpression _ ih => exact (ih hequal).imp .assignedExpression .assignedExpression
  | caseOf _ hne _ ihscrutinee ih =>
      obtain ⟨_, _, rfl, _ | ⟨hs, _ | ⟨hos, _ | _⟩⟩⟩ := Node.exists_of_equal hequal
      obtain ⟨scrutinee, rfl, hs⟩ := Value.exists_node_of_equal hs
      obtain ⟨options, rfl, hsame⟩ := Value.exists_nodes_of_equal hos
      obtain ⟨hscrutinee, hsalike⟩ := ihscrutinee hs
      obtain ⟨hall, halike⟩ := forall_of_equal (fun m hm n => ih m hm) hsame
      exact ⟨.caseOf hscrutinee (ne_nil_of_equal hne hsame) hall, .caseOf hsalike halike⟩
  | caseOption hname hbindings _ ih =>
      obtain ⟨_, _, rfl, _ | ⟨hp, _ | ⟨hv, _ | _⟩⟩⟩ := Node.exists_of_equal hequal
      obtain ⟨pattern, rfl, hp⟩ := Value.exists_node_of_equal hp
      obtain ⟨_, _, rfl, _ | ⟨hn, _ | ⟨hbs, _ | _⟩⟩⟩ := Node.exists_of_equal hp
      obtain rfl := Value.isExact_text _ _ hn
      obtain rfl := Value.isExact_names _ _ hbs
      obtain ⟨value, rfl, hv⟩ := Value.exists_node_of_equal hv
      obtain ⟨hvalue, halike⟩ := ih hv
      exact ⟨.caseOption hname hbindings hvalue, .caseOption _ _ halike⟩
  | armExpression _ ih => exact (ih hequal).imp .armExpression .armExpression
  | armBody _ ih => exact (ih hequal).imp .armBody .armBody
  | expr hlength _ ih =>
      obtain ⟨_, _, rfl, _ | ⟨hts, _ | ⟨hos, _ | _⟩⟩⟩ := Node.exists_of_equal hequal
      obtain ⟨terms, rfl, hsame⟩ := Value.exists_nodes_of_equal hts
      obtain rfl := Value.isExact_operators _ _ hos
      obtain ⟨hall, halike⟩ := forall_of_equal (fun m hm n => ih m hm) hsame
      exact ⟨.expr (hsame.length_eq.symm.trans hlength) hall, .expr _ halike⟩
  | callTerm _ ih => exact (ih hequal).imp .callTerm .callTerm
  | expressionTerm _ ih => exact (ih hequal).imp .expressionTerm .expressionTerm
  | identifier hname =>
      obtain ⟨_, _, rfl, _ | ⟨hn, _ | _⟩⟩ := Node.exists_of_equal hequal
      obtain rfl := Value.isExact_text _ _ hn
      exact ⟨.identifier hname, rfl⟩
  | number hsign hpieces =>
      obtain ⟨_, _, rfl, _ | ⟨hs, _ | ⟨hi, _ | ⟨hf, _ | ⟨he, _ | _⟩⟩⟩⟩⟩ :=
        Node.exists_of_equal hequal
      obtain rfl := Value.isExact_text _ _ hs
      obtain rfl := Value.isExact_text _ _ hi
      obtain rfl := Value.isExact_optionalText _ _ hf
      obtain rfl := Value.isExact_optionalText _ _ he
      exact ⟨.number hsign hpieces, rfl⟩
  | call hname _ ih =>
      obtain ⟨_, _, rfl, _ | ⟨hn, _ | ⟨has, _ | _⟩⟩⟩ := Node.exists_of_equal hequal
      obtain rfl := Value.isExact_text _ _ hn
      obtain ⟨arguments, rfl, hsame⟩ := Value.exists_nodes_of_equal has
      obtain ⟨hall, halike⟩ := forall_of_equal (fun m hm n => ih m hm) hsame
      exact ⟨.call hname hall, .call _ halike⟩

end Spruce
