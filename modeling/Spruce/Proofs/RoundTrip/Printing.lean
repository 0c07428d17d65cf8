import Spruce.Proofs.Reference.Acceptance
import Spruce.Proofs.RoundTrip.Statements

set_option autoImplicit false

/-!
# Printed programs are read back

Every grammatical program has a printed form, and parsing it gives a program that equals the
printed one. What is proved by induction over a grammatical tree says the same of each place that
a node can stand in (`Printed`): there is a printed form, and it is read as the node.

The printer meets the elements of a sequence one after another, so that first each of its list
functions is shown to print the elements one by one.
-/

namespace Spruce

variable {filename : Option String}

/-! ## Printing sequences -/

theorem exists_forall₂ {α β : Type} {R : α → β → Prop} {bs : List β}
    (h : ∀ b ∈ bs, ∃ a, R a b) : ∃ as, List.Forall₂ R as bs := by
  induction bs with
  | nil => exact ⟨[], .nil⟩
  | cons b bs ih =>
      obtain ⟨a, ha⟩ := h b List.mem_cons_self
      obtain ⟨as, has⟩ := ih fun b' hb' => h b' (List.mem_cons_of_mem b hb')
      exact ⟨a :: as, .cons ha has⟩

theorem mapM_eq_ok {α β : Type} {p : α → Except Fault β} {bs : List β} {as : List α}
    (h : List.Forall₂ (fun b a => p a = .ok b) bs as) : as.mapM p = .ok bs := by
  induction h with
  | nil => rfl
  | cons hfirst _ ih =>
      rw [List.mapM_cons, hfirst, ih]
      rfl

/-- Nodes that can be printed one by one can be printed as a sequence. -/
theorem exists_mapM_nodes {p : Value → Except Fault Text} (f : Text → Text)
    {R : Text → Node → Prop} {ns : List Node}
    (h : ∀ n ∈ ns, ∃ t, p (.node n) = .ok (f t) ∧ R t n) :
    ∃ ts, (ns.map Value.node).mapM p = .ok (ts.map f) ∧ List.Forall₂ R ts ns := by
  obtain ⟨ts, hts⟩ := exists_forall₂ h
  refine ⟨ts, mapM_eq_ok ?_, hts.imp fun _ _ ht => ht.2⟩
  rw [List.forall₂_map_left_iff, List.forall₂_map_right_iff]
  exact hts.imp fun _ _ ht => ht.1

theorem printTypeExprs_eq_mapM (vs : List Value) :
    printTypeExprs vs = vs.mapM Value.printTypeExpr := by
  induction vs with
  | nil => rfl
  | cons v vs ih => rw [printTypeExprs, ih, List.mapM_cons]

theorem printExprs_eq_mapM (vs : List Value) : printExprs vs = vs.mapM Value.printExpr := by
  induction vs with
  | nil => rfl
  | cons v vs ih => rw [printExprs, ih, List.mapM_cons]

theorem printStatementLines_eq_mapM (indent : Text) (vs : List Value) :
    printStatementLines indent vs = vs.mapM (Value.printStatement indent) := by
  induction vs with
  | nil => rfl
  | cons v vs ih => rw [printStatementLines, ih, List.mapM_cons]

theorem printArmLines_eq_mapM (indent : Text) (vs : List Value) :
    printArmLines indent vs =
      vs.mapM (fun v => (indent ++ ·) <$> v.printArm indent) := by
  induction vs with
  | nil => rfl
  | cons v vs ih => rw [printArmLines, ih, List.mapM_cons, bind_map_left]

theorem toTexts_names (names : List String) :
    (Value.names names).toTexts = .ok (names.map String.toList) := by
  show (names.map Value.text).mapM Value.toText = _
  refine mapM_eq_ok ?_
  rw [List.forall₂_map_left_iff, List.forall₂_map_right_iff]
  exact List.forall₂_same.2 fun _ _ => rfl

theorem spaced_texts (ts : List Text) : spaced (ts.map .text) = .ok ([' '].intercalate ts) := by
  have htexts : (ts.map Piece.text).mapM Piece.toText = .ok ts := by
    refine mapM_eq_ok ?_
    rw [List.forall₂_map_right_iff]
    exact List.forall₂_same.2 fun _ _ => rfl
  rw [spaced, htexts]
  rfl

/-- Operators and terms are printed in turn. -/
theorem printOperands_eq_ok (os : List Operator) {ts : List Text} {ns : List Node}
    (h : List.Forall₂ (fun t (n : Node) => n.printTerm = .ok (.text t)) ts ns) :
    printOperands (os.map .operator) (ns.map .node) = .ok ((operandTexts os ts).map .text) := by
  induction h generalizing os with
  | nil => cases os <;> rfl
  | @cons t n ts ns hfirst _ ih =>
      cases os with
      | nil => rfl
      | cons o os =>
          have hterm : (Value.node n).printTerm = .ok (.text t) := hfirst
          rw [List.map_cons, List.map_cons, printOperands, hterm, ih os]
          rfl

/-! ## Printed forms -/

theorem Text.IsBlanks.deeper {indent : Text} (h : indent.IsBlanks) :
    (deeper indent).IsBlanks := by
  intro c hc
  rcases List.mem_append.1 hc with hc | hc
  · exact h c hc
  · exact List.all_eq_true.1 rfl c hc

/-- A node that may stand in a place has a printed form there, which is read as the node. Where
the printed form has several lines, this holds for any indentation. -/
def Printed (filename : Option String) : Place → Node → Prop
  | .program, n => ∃ text, n.printProgram = .ok text ∧
      Reads filename isSolid (.sub .program) text fun m => Node.equal m n = true
  | .item, n => ∃ text, (Value.node n).printItem [] = .ok text ∧
      ReadsAs filename .item text fun m => Node.equal m n = true
  | .typeOption, n => ∃ text, (Value.node n).printTypeOption = .ok text ∧
      ReadsAs filename .typeOption text fun m => Node.equal m n = true
  | .typeExpr, n => ∃ text, n.printTypeExpr = .ok text ∧
      ReadsAs filename .typeExpr text fun m => Node.equal m n = true
  | .body, n => ∃ span ns k, n = .body span (.nodes ns) (.optionalNode k) ∧
      ∀ indent, indent.IsBlanks → ∃ cs t, ReadsAsLines filename cs t ns k ∧
        n.printBodyLines indent = .ok ((cs ++ t.toList).map fun c => indent ++ c)
  | .statement, n => ∀ indent, indent.IsBlanks → ∃ text,
      n.printStatement indent = .ok (indent ++ text) ∧
        ReadsAs filename .statement text fun m => Node.equal m n = true
  | .assignment, n => (∃ span target value, n = .assign span target value) ∧
      ∀ indent, indent.IsBlanks → ∃ text, n.printStatement indent = .ok (indent ++ text) ∧
        ReadsAs filename .assignment text fun m => Node.equal m n = true
  | .assigned, n => ∀ indent, indent.IsBlanks → ∃ text,
      n.printValued indent = .ok (.text text) ∧
        ReadsAs filename .assignedValue text fun m => Node.equal m n = true
  | .caseOf, n => ∀ indent, indent.IsBlanks → ∃ text,
      n.printValued indent = .ok (.text text) ∧ n.printStatement indent = .ok (indent ++ text) ∧
        ReadsAs filename .caseExpr text fun m => Node.equal m n = true
  | .caseOption, n => ∀ indent, indent.IsBlanks → ∃ text,
      (Value.node n).printArm indent = .ok text ∧
        ReadsAs filename .caseOption text fun m => Node.equal m n = true
  | .arm, n => ∀ indent, indent.IsBlanks → ∃ text,
      (Value.node n).printArmValue indent = .ok text ∧ text.Begins (fun c => !isBlank c) ∧
        Reads filename isDelimiter (.sub .arm) text fun m => Node.equal m n = true
  | .expression, n => (∃ span terms operators, n = .expr span terms operators) ∧
      ∃ text, n.printExpr = .ok text ∧ ReadsAsExpression filename text n
  | .term, n => ∃ text, n.printTerm = .ok (.text text) ∧ ReadsAsTerm filename text n
  | .call, n => ∃ text, n.printTerm = .ok (.text text) ∧
      (∀ indent, n.printStatement indent = .ok (indent ++ text)) ∧
        ReadsAs filename .call text (fun m => Node.equal m n = true) ∧ ReadsAsTerm filename text n

section

variable {span : Option Span} {name : String} {ns : List Node}

/-! ## Type expressions -/

theorem printTypeArguments_eq_ok {ts : List Text}
    (h : (ns.map Value.node).mapM Value.printTypeExpr = .ok ts)
    (hlength : ts.length = ns.length) :
    (Value.nodes ns).printTypeArguments = .ok (optionalParens ts) := by
  rw [← printTypeExprs_eq_mapM] at h
  cases ns with
  | nil =>
      obtain rfl := List.length_eq_zero_iff.1 hlength
      rfl
  | cons n ns =>
      cases ts with
      | nil => exact absurd hlength (Nat.zero_ne_add_one _)
      | cons t ts =>
          show (do pure (parenthesised (← printTypeExprs ((n :: ns).map Value.node)))) = _
          rw [h]
          rfl

/-- Type arguments are printed, and read one by one. -/
theorem exists_typeArguments (h : ∀ n ∈ ns, Printed filename .typeExpr n) :
    ∃ ts, (Value.nodes ns).printTypeArguments = .ok (optionalParens ts) ∧
      ReadsNodes filename .typeExpr id ts ns := by
  obtain ⟨ts, hprint, hreads⟩ := exists_mapM_nodes (p := Value.printTypeExpr) id h
  rw [List.map_id] at hprint
  exact ⟨ts, printTypeArguments_eq_ok hprint hreads.length_eq, hreads⟩

theorem Printed.typeExpr (hname : IsName name) (h : ∀ n ∈ ns, Printed filename .typeExpr n) :
    Printed filename .typeExpr (.typeExpr span (.text name) (.nodes ns)) := by
  obtain ⟨ts, hprint, hreads⟩ := exists_typeArguments h
  refine ⟨_, ?_, ReadsAs.typeExpr hname hreads⟩
  show (do
    let tail ← (Value.nodes ns).printTypeArguments
    pure (name.toList ++ tail)) = _
  rw [hprint]
  rfl

theorem Printed.typeOption (hname : IsName name) (h : ∀ n ∈ ns, Printed filename .typeExpr n) :
    Printed filename .typeOption (.typeOption span (.text name) (.nodes ns)) := by
  obtain ⟨ts, hprint, hreads⟩ := exists_typeArguments h
  refine ⟨_, ?_, ReadsAs.typeOption hname hreads⟩
  show (do
    let tail ← (Value.nodes ns).printTypeArguments
    pure (name.toList ++ tail)) = _
  rw [hprint]
  rfl

/-! ## Expressions -/

theorem Printed.call (hname : IsName name) (h : ∀ n ∈ ns, Printed filename .expression n) :
    Printed filename .call (.call span (.text name) (.nodes ns)) := by
  obtain ⟨ts, hprint, hreads⟩ := exists_mapM_nodes (p := Value.printExpr) id
    fun n hn => (h n hn).2
  rw [List.map_id, ← printExprs_eq_mapM] at hprint
  have harguments : (Value.nodes ns).printArguments = .ok ts := hprint
  have hnodes : ReadsNodes filename .expression id ts ns := hreads.imp fun _ _ h => h.expression
  refine ⟨name.toList ++ parenthesised ts, ?_, fun indent => ?_, .call hname hnodes,
    .call hname hnodes⟩
  · show (do
      pure (Piece.text (name.toList ++ parenthesised (← (Value.nodes ns).printArguments)))) = _
    rw [harguments]
    rfl
  · show (do
      pure (indent ++ name.toList ++ parenthesised (← (Value.nodes ns).printArguments))) = _
    rw [harguments, ← List.append_assoc]
    rfl

theorem Printed.callTerm {n : Node} (h : Printed filename .call n) : Printed filename .term n := by
  obtain ⟨text, hprint, -, -, hreads⟩ := h
  exact ⟨text, hprint, hreads⟩

theorem Printed.expressionTerm {n : Node} (h : Printed filename .expression n) :
    Printed filename .term n := by
  obtain ⟨⟨span, terms, operators, rfl⟩, text, hprint, hreads⟩ := h
  have hchain : terms.printChain operators = .ok text := hprint
  refine ⟨_, ?_, hreads.parenthesised⟩
  show (do pure (Piece.text (parenthesised [← terms.printChain operators]))) = _
  rw [hchain]
  rfl

theorem Printed.expr {operators : List Operator} (hlength : ns.length = operators.length + 1)
    (h : ∀ n ∈ ns, Printed filename .term n) :
    Printed filename .expression (.expr span (.nodes ns) (.operators operators)) := by
  obtain ⟨ts, hts⟩ := exists_forall₂ h
  refine ⟨⟨_, _, _, rfl⟩, ?_⟩
  cases hts with
  | nil => exact absurd hlength (Nat.zero_ne_add_one _)
  | @cons t n ts ns hfirst hlater =>
      have hlater' : ts.length = operators.length :=
        hlater.length_eq.trans (Nat.succ.inj hlength)
      refine ⟨chainText operators t ts, ?_, .expr hfirst.2 (hlater.imp fun _ _ ht => ht.2) hlater'⟩
      have hoperands := printOperands_eq_ok operators (hlater.imp fun _ _ ht => ht.1)
      show (do
        let first ← n.printTerm
        spaced (first :: (← printOperands (operators.map .operator) (ns.map .node)))) = _
      rw [hfirst.1, hoperands]
      exact spaced_texts (t :: operandTexts operators ts)

/-! ## Bodies -/

theorem Printed.body {k : Option Node} (hstatements : ∀ n ∈ ns, Printed filename .statement n)
    (htrailing : ∀ n ∈ k, Printed filename .expression n)
    (hcall : ∀ n ∈ k, n.isLoneCall = false) :
    Printed filename .body (.body span (.nodes ns) (.optionalNode k)) := by
  refine ⟨_, _, _, rfl, fun indent hindent => ?_⟩
  -- statements first, as the printed value is their last line
  obtain ⟨cs, hprint, hreads⟩ := exists_mapM_nodes (p := Value.printStatement indent)
    (fun c => indent ++ c) fun n hn => hstatements n hn indent hindent
  rw [← printStatementLines_eq_mapM] at hprint
  cases k with
  | none =>
      refine ⟨cs, none, ⟨hreads, .none⟩, ?_⟩
      show (printStatementLines indent (ns.map .node) >>= fun lines => pure lines) = _
      rw [hprint, Option.toList_none, List.append_nil]
      rfl
  | some n =>
      obtain ⟨⟨span, terms, operators, rfl⟩, text, hexpr, hexpression⟩ := htrailing n rfl
      refine ⟨cs, some text, ⟨hreads, .some (hexpression.trailing (hcall _ rfl))⟩, ?_⟩
      have hchain : terms.printChain operators = .ok text := hexpr
      show (do
        let lines ← printStatementLines indent (ns.map .node)
        let last ← (do pure (Piece.text (← terms.printChain operators)))
        pure (lines ++ [indent ++ (← last.toText)])) = _
      rw [hprint, hchain, Option.toList_some, List.map_append]
      rfl

/-! ## Assignments and case constructs -/

theorem Printed.assignmentStatement {n : Node} (h : Printed filename .assignment n) :
    Printed filename .statement n := by
  intro indent hindent
  obtain ⟨text, hprint, hreads⟩ := h.2 indent hindent
  exact ⟨text, hprint, hreads.begins,
    .node (by decide) .assignmentStatement (.last hreads.reads) fun _ _ hms => hms⟩

theorem Printed.callStatement {n : Node} (h : Printed filename .call n) :
    Printed filename .statement n := by
  obtain ⟨text, -, hprint, hreads, -⟩ := h
  exact fun indent _ => ⟨text, hprint indent, hreads.begins,
    .node (by decide) .callStatement (.last hreads.reads) fun _ _ hms => hms⟩

theorem Printed.caseStatement {n : Node} (h : Printed filename .caseOf n) :
    Printed filename .statement n := by
  intro indent hindent
  obtain ⟨text, -, hprint, hreads⟩ := h indent hindent
  exact ⟨text, hprint, hreads.begins,
    .node (by decide) .caseStatement (.last hreads.reads) fun _ _ hms => hms⟩

theorem Printed.assignedExpression {n : Node} (h : Printed filename .expression n) :
    Printed filename .assigned n := by
  obtain ⟨⟨span, terms, operators, rfl⟩, text, hprint, hreads⟩ := h
  have hchain : terms.printChain operators = .ok text := hprint
  refine fun indent _ => ⟨text, ?_, hreads.expression.begins, ?_⟩
  · show (do pure (Piece.text (← terms.printChain operators))) = _
    rw [hchain]
    rfl
  · exact .node (by decide) .expressionValue (.last hreads.expression.reads) fun _ _ hms => hms

theorem Printed.assignedCase {n : Node} (h : Printed filename .caseOf n) :
    Printed filename .assigned n := by
  intro indent hindent
  obtain ⟨text, hprint, -, hreads⟩ := h indent hindent
  exact ⟨text, hprint, hreads.begins,
    .node (by decide) .caseValue (.last hreads.reads) fun _ _ hms => hms⟩

theorem Printed.assign {targetSpan : Option Span} {kind : TargetKind} {value : Node}
    (hname : IsName name) (h : Printed filename .assigned value) :
    Printed filename .assignment
      (.assign span (.node (.target targetSpan (.targetKind kind) (.text name)))
        (.node value)) := by
  refine ⟨⟨_, _, _, rfl⟩, fun indent hindent => ?_⟩
  obtain ⟨text, hprint, hreads⟩ := h indent hindent
  refine ⟨assignmentText kind name.toList ++ ' ' :: text, ?_, .assignment hname hreads⟩
  show (do
    pure (indent ++ assignmentText kind name.toList ++
      ' ' :: (← value.printValued indent).display)) = _
  rw [hprint, ← List.append_assoc]
  rfl

theorem Printed.armExpression {n : Node} (h : Printed filename .expression n) :
    Printed filename .arm n := by
  obtain ⟨⟨span, terms, operators, rfl⟩, text, hprint, hreads⟩ := h
  exact fun _ _ => ⟨text, hprint, hreads.expression.begins.not_blank,
    .node (by decide) .expressionArm (.last hreads.expression.reads) fun _ _ hms => hms⟩

theorem Printed.armBody {n : Node} (h : Printed filename .body n) : Printed filename .arm n := by
  obtain ⟨span, ns, k, rfl, hlines⟩ := h
  intro indent hindent
  -- the lines stand deeper than the closing brace
  obtain ⟨cs, t, hreads, hprint⟩ := hlines (deeper indent) hindent.deeper
  refine ⟨_, ?_, Text.begins_cons (by decide) _, hreads.arm hindent.deeper hindent⟩
  show (do
    pure (bracedLines indent (← (Node.body span (.nodes ns) (.optionalNode k)).printBodyLines
      (deeper indent)))) = _
  rw [hprint]
  rfl

theorem printPattern_eq_ok {patternSpan : Option Span} (bindings : List String) :
    (Value.node (.casePattern patternSpan (.text name) (.names bindings))).printPattern =
      .ok (name.toList ++ optionalParens (bindings.map String.toList)) := by
  cases bindings with
  | nil => exact congrArg Except.ok (List.append_nil _).symm
  | cons s ss =>
      show (do
        let names ← (Value.names (s :: ss)).toTexts
        pure (name.toList ++ parenthesised names)) = _
      rw [toTexts_names]
      rfl

theorem Printed.caseOption {patternSpan : Option Span} {bindings : List String} {value : Node}
    (hname : IsName name) (hbindings : ∀ s ∈ bindings, IsName s)
    (h : Printed filename .arm value) :
    Printed filename .caseOption
      (.caseOption span (.node (.casePattern patternSpan (.text name) (.names bindings)))
        (.node value)) := by
  intro indent hindent
  obtain ⟨text, hprint, -, hreads⟩ := h indent hindent
  refine ⟨_, ?_, .caseOption (.pattern hname hbindings) hreads⟩
  show (do
    let left ← (Value.node (.casePattern patternSpan (.text name) (.names bindings))).printPattern
    pure (left ++ " -> ".toList ++ (← (Value.node value).printArmValue indent))) = _
  rw [printPattern_eq_ok, hprint]
  rfl

theorem Printed.caseOf {scrutinee : Node} (hscrutinee : Printed filename .expression scrutinee)
    (hne : ns ≠ []) (h : ∀ n ∈ ns, Printed filename .caseOption n) :
    Printed filename .caseOf (.caseOf span (.node scrutinee) (.nodes ns)) := by
  intro indent hindent
  obtain ⟨-, text, hexpr, hexpression⟩ := hscrutinee
  -- an arm is printed with its indentation, which the newline before it takes in
  have harms : ∀ n ∈ ns, ∃ c, ((deeper indent ++ ·) <$> (Value.node n).printArm (deeper indent)) =
      .ok (deeper indent ++ c) ∧ ReadsAs filename .caseOption c fun m => Node.equal m n = true := by
    intro n hn
    obtain ⟨c, hprint, hreads⟩ := h n hn (deeper indent) hindent.deeper
    refine ⟨c, ?_, hreads⟩
    rw [hprint]
    rfl
  obtain ⟨cs, hprint, hreads⟩ := exists_mapM_nodes
    (p := fun v => (deeper indent ++ ·) <$> v.printArm (deeper indent)) (deeper indent ++ ·) harms
  rw [← printArmLines_eq_mapM] at hprint
  refine ⟨_, ?_, ?_, .caseExpr hindent.deeper hindent hexpression.expression hreads hne⟩
  · show (do
      let arms ← printArmLines (deeper indent) (ns.map .node)
      pure (Piece.text (caseText indent (← scrutinee.printExpr) arms))) = _
    rw [hprint, hexpr]
    rfl
  · show (do
      let arms ← printArmLines (deeper indent) (ns.map .node)
      pure (indent ++ caseText indent (← scrutinee.printExpr) arms)) = _
    rw [hprint, hexpr]
    rfl

/-! ## Items and programs -/

theorem Printed.functionDecl {parameters : List String} {block : Node} (hname : IsName name)
    (hparameters : ∀ s ∈ parameters, IsName s) (h : Printed filename .body block) :
    Printed filename .item
      (.functionDecl span (.text name) (.names parameters) (.node block)) := by
  obtain ⟨bodySpan, ns, k, rfl, hlines⟩ := h
  obtain ⟨cs, t, hreads, hprint⟩ := hlines (deeper []) Text.IsBlanks.nil.deeper
  have hdecl : ReadsAs filename .functionDecl _ fun m => Node.equal m (.functionDecl span
      (.text name) (.names parameters) (.node (.body bodySpan (.nodes ns) (.optionalNode k)))) :=
    hreads.functionDecl Text.IsBlanks.nil.deeper Text.IsBlanks.nil hname hparameters
  refine ⟨_, ?_, hdecl.begins, .node (by decide) .functionItem (.last hdecl.reads)
    fun _ _ hms => hms⟩
  show (do
    let names ← (Value.names parameters).toTexts
    let lines ← (Node.body bodySpan (.nodes ns) (.optionalNode k)).printBodyLines (deeper [])
    pure (name.toList ++ parenthesised names ++ ' ' :: bracedLines [] lines)) = _
  rw [toTexts_names, hprint]
  rfl

theorem printTypeParameters_eq_ok (parameters : List String) :
    (Value.names parameters).printTypeParameters =
      .ok (optionalParens (parameters.map String.toList)) := by
  cases parameters with
  | nil => rfl
  | cons s ss =>
      show (do pure (parenthesised (← (Value.names (s :: ss)).toTexts))) = _
      rw [toTexts_names]
      rfl

theorem Printed.typeDecl {parameters : List String} (hname : IsName name)
    (hparameters : ∀ s ∈ parameters, IsName s) (hne : ns ≠ [])
    (h : ∀ n ∈ ns, Printed filename .typeOption n) :
    Printed filename .item (.typeDecl span (.text name) (.names parameters) (.nodes ns)) := by
  obtain ⟨cs, hprint, hreads⟩ := exists_mapM_nodes (p := Value.printTypeOption) id h
  rw [List.map_id] at hprint
  have hdecl : ReadsAs filename .typeDecl _ fun m => Node.equal m (.typeDecl span (.text name)
      (.names parameters) (.nodes ns)) :=
    .typeDecl Text.IsBlanks.nil.deeper Text.IsBlanks.nil hname hparameters hreads hne
  refine ⟨_, ?_, hdecl.begins, .node (by decide) .typeItem (.last hdecl.reads)
    fun _ _ hms => hms⟩
  show (do
    let names ← (Value.names parameters).printTypeParameters
    let lines ← (ns.map Value.node).mapM Value.printTypeOption
    pure ("type ".toList ++ name.toList ++ names ++
      ' ' :: bracedLines [] (lines.map fun line => deeper [] ++ line))) = _
  rw [printTypeParameters_eq_ok, hprint]
  rfl

theorem Printed.assignmentItem {n : Node} (h : Printed filename .assignment n) :
    Printed filename .item n := by
  obtain ⟨⟨span, target, value, rfl⟩, hprinted⟩ := h
  obtain ⟨text, hprint, hreads⟩ := hprinted [] Text.IsBlanks.nil
  exact ⟨text, hprint, hreads.begins,
    .node (by decide) .assignmentItem (.last hreads.reads) fun _ _ hms => hms⟩

theorem Printed.program (h : ∀ n ∈ ns, Printed filename .item n) :
    Printed filename .program (.program span (.nodes ns)) := by
  obtain ⟨ts, hprint, hreads⟩ := exists_mapM_nodes (p := Value.printItem []) id h
  rw [List.map_id] at hprint
  refine ⟨_, ?_, ReadsNodes.program hreads⟩
  show (do pure (linesText (← (ns.map Value.node).mapM (Value.printItem [])))) = _
  rw [hprint]
  rfl

end

/-- Every grammatical node has a printed form, which is read as the node. -/
theorem Grammatical.printed (filename : Option String) {place : Place} {n : Node}
    (h : Grammatical place n) : Printed filename place n := by
  induction h with
  | program _ ih => exact .program ih
  | functionDecl hname hparameters _ ih => exact .functionDecl hname hparameters ih
  | typeDecl hname hparameters hne _ ih => exact .typeDecl hname hparameters hne ih
  | assignmentItem _ ih => exact ih.assignmentItem
  | typeOption hname _ ih => exact .typeOption hname ih
  | typeExpr hname _ ih => exact .typeExpr hname ih
  | body _ _ hcall ihStatements ihTrailing => exact .body ihStatements ihTrailing hcall
  | assignmentStatement _ ih => exact ih.assignmentStatement
  | callStatement _ ih => exact ih.callStatement
  | caseStatement _ ih => exact ih.caseStatement
  | assign hname _ ih => exact .assign hname ih
  | assignedCase _ ih => exact ih.assignedCase
  | assignedExpression _ ih => exact ih.assignedExpression
  | caseOf _ hne _ ihScrutinee ih => exact .caseOf ihScrutinee hne ih
  | caseOption hname hbindings _ ih => exact .caseOption hname hbindings ih
  | armExpression _ ih => exact ih.armExpression
  | armBody _ ih => exact ih.armBody
  | expr hlength _ ih => exact .expr hlength ih
  | callTerm _ ih => exact ih.callTerm
  | expressionTerm _ ih => exact ih.expressionTerm
  | identifier hname => exact ⟨_, rfl, .identifier hname⟩
  | number hsign hpieces => exact ⟨_, rfl, .number hsign hpieces⟩
  | call hname _ ih => exact .call hname ih

/-! ## Round trip -/

/-- A text that is read as a program is cut into the tokens of the program to its end. -/
theorem lex_eq_of_lexFrom {text : Text} {ts : List Token}
    (h : lexFrom .origin text = (lexFrom (Position.origin.advance text) []).prepend ts) :
    (lex text).tokens = ts ∧ (lex text).rest = [] := by
  rw [lexFrom_of_none lexeme_nil] at h
  rw [lex, h]
  exact ⟨List.append_nil ts, rfl⟩

/-- A grammatical program has a printed form, and parsing that gives an equal program. -/
theorem parse_printProgram (filename : Option String) {p : Node} (h : Grammatical .program p) :
    ∃ text n, p.printProgram = .ok text ∧
      (parseProgram filename (String.ofList text)).outcome = .ok n ∧ n.equal p = true := by
  obtain ⟨text, hprint, hreads⟩ := h.printed filename
  -- nothing comes after the program
  have hend : Text.Opens isSolid [] := fun _ hc => absurd hc (Option.not_mem_none _)
  obtain ⟨d, htight, hequal, hlex⟩ := hreads .origin [] hend
  rw [List.append_nil] at hlex
  obtain ⟨htokens, hrest⟩ := lex_eq_of_lexFrom hlex
  refine ⟨text, (d.understand filename).meaning, hprint, ?_, hequal⟩
  rw [parseProgram, String.toList_ofList]
  -- any derivation without detached signs is the one that is found
  exact parse_eq_ok_iff.2 ⟨hrest, d, htokens.symm, htight, rfl⟩

/-- A name as an expression. -/
def nameExpr (s : String) : Node :=
  .expr none (.nodes [.identifier none (.text s)]) (.operators [])

/-- `mut(case) -> {`, with `case` as the value of the body. -/
def keywordOption : Node :=
  .caseOption none (.node (.casePattern none (.text "mut") (.names ["case"])))
    (.node (.body none (.nodes []) (.optionalNode (some (nameExpr "case")))))

/-- `case case(x) {`, with one option. -/
def keywordCase : Node :=
  .caseOf none (.node (.expr none (.nodes [.call none (.text "case") (.nodes [nameExpr "x"])])
    (.operators []))) (.nodes [keywordOption])

/-- `x - -1.e+2`. -/
def difference : Node :=
  .expr none (.nodes [.identifier none (.text "x"), .number none (.text "-") (.text "1")
    (.optionalText (some "")) (.optionalText (some "+2"))]) (.operators [.subtract])

/-- A function named like a keyword. -/
def keywordProgram : Node :=
  .program none (.nodes [.functionDecl none (.text "type") (.names ["x"])
    (.node (.body none (.nodes [keywordCase]) (.optionalNode (some difference))))])

theorem grammatical_nameExpr {s : String} (h : IsName s) : Grammatical .expression (nameExpr s) :=
  .expr rfl (List.forall_mem_singleton.2 (.identifier h))

theorem grammatical_keywordCase : Grammatical .caseOf keywordCase := by
  have hcall : Grammatical .term (.call none (.text "case") (.nodes [nameExpr "x"])) :=
    .callTerm (.call (by decide) (List.forall_mem_singleton.2 (grammatical_nameExpr (by decide))))
  have hvalue : Grammatical .arm
      (.body none (.nodes []) (.optionalNode (some (nameExpr "case")))) := by
    refine .armBody (.body (fun _ hn => absurd hn List.not_mem_nil) ?_ ?_)
    · rintro _ ⟨⟩
      exact grammatical_nameExpr (by decide)
    · rintro _ ⟨⟩
      rfl
  exact .caseOf (.expr rfl (List.forall_mem_singleton.2 hcall)) (List.cons_ne_nil _ _)
    (List.forall_mem_singleton.2 (.caseOption (by decide) (by decide) hvalue))

theorem grammatical_difference : Grammatical .expression difference := by
  refine .expr rfl (List.forall_mem_cons.2 ⟨.identifier (by decide),
    List.forall_mem_singleton.2 (.number (.inr (.inr rfl)) ⟨?_, ?_, ?_, ?_⟩)⟩)
  · decide
  · decide
  · rintro _ ⟨⟩
    decide
  · rintro _ ⟨⟩
    exact .signed (by decide) (by decide) (by decide)

theorem parse_printProgram_keywords : Grammatical .program keywordProgram ∧
    ∃ text n, keywordProgram.printProgram = .ok text ∧
      (parseProgram none (String.ofList text)).outcome = .ok n ∧ n.equal keywordProgram = true := by
  have hbody : Grammatical .body
      (.body none (.nodes [keywordCase]) (.optionalNode (some difference))) := by
    refine .body (List.forall_mem_singleton.2 (.caseStatement grammatical_keywordCase)) ?_ ?_
    · rintro _ ⟨⟩
      exact grammatical_difference
    · rintro _ ⟨⟩
      rfl
  have h : Grammatical .program keywordProgram :=
    .program (List.forall_mem_singleton.2 (.functionDecl (by decide) (by decide) hbody))
  exact ⟨h, parse_printProgram none h⟩

end Spruce
