import Spruce.Proofs.Printing.Inline
import Spruce.Proofs.RoundTrip.PrintedAlike

set_option autoImplicit false

/-!
# The indentation of printed programs

What is printed on several lines keeps its lines if more indentation is asked for: each gets the
indentation before it, save a first line that stands after other text. Within the lines, two blanks
stand for each brace that is open.

Both are proved in one induction over a grammatical tree, which says for each place that a node can
stand in what is printed there (`LaidOut`): a text within a line, a block of lines, or a text that
hangs, for which the lines are the same whatever the indentation is. From that follows
`printed_indentation`.

Main definitions: `hangingText`, `indentedText`, `LaidOut`.
-/

namespace Spruce

/-- A first line as it is, and later lines with indentation before each. -/
def hangingText (indent first : Text) (later : List Text) : Text :=
  joinedLines (first :: later.map (indent ++ ·))

/-- Lines with indentation before each. -/
def indentedText (indent : Text) (ls : List Text) : Text := joinedLines (ls.map (indent ++ ·))

theorem hangingText_nil (indent first : Text) : hangingText indent first [] = first := by
  rw [hangingText, List.map_nil, joinedLines_cons, List.flatMap_nil, List.append_nil]

theorem append_hangingText (head indent first : Text) (later : List Text) :
    head ++ hangingText indent first later = hangingText indent (head ++ first) later :=
  append_joinedLines head first (later.map (indent ++ ·))

theorem indent_append_hangingText (indent first : Text) (later : List Text) :
    indent ++ hangingText indent first later = indentedText indent (first :: later) :=
  joinedLines_indented indent first later

/-! ## What is printed in a place -/

/-- Printed within a line. -/
def PrintsInline (printed : Except Fault Text) : Prop := ∃ t, printed = .ok t ∧ t.IsInline

/-- Printed as a block of lines, the same for any indentation. -/
def PrintsBlock (printed : Text → Except Fault Text) : Prop :=
  ∃ ls, ls ≠ [] ∧ IsBlock ls ∧ ∀ indent, printed indent = .ok (indentedText indent ls)

/-- Printed as texts that together are a block of lines, the same for any indentation. -/
def PrintsTexts (printed : Text → Except Fault (List Text)) : Prop :=
  ∃ ls, IsBlock ls ∧ ∀ indent, ∃ ts, printed indent = .ok ts ∧
    linesText ts = linesText (ls.map (indent ++ ·))

/-- Printed as a hanging text, the same for any indentation. -/
def PrintsHanging (printed : Text → Except Fault Text) : Prop :=
  ∃ first later, Hangs first later ∧
    ∀ indent, printed indent = .ok (hangingText indent first later)

/-- How a node is laid out that may stand in a place. -/
def LaidOut : Place → Node → Prop
  | .program, n => ∃ ls, IsBlock ls ∧ n.printProgram = .ok (linesText ls)
  | .item, n => PrintsBlock (Value.printItem · (.node n))
  | .typeOption, n => PrintsInline (Value.node n).printTypeOption
  | .typeExpr, n => PrintsInline n.printTypeExpr
  | .body, n => n.isBody = true ∧ PrintsTexts (Node.printBodyLines · n)
  | .statement, n => PrintsBlock (Node.printStatement · n)
  | .assignment, n => (∃ span target value, n = .assign span target value) ∧
      PrintsBlock (Node.printStatement · n)
  | .assigned, n => PrintsHanging (Node.printValued · n >>= Piece.toText)
  | .caseOf, n => PrintsHanging (Node.printValued · n >>= Piece.toText) ∧
      PrintsBlock (Node.printStatement · n)
  | .caseOption, n => PrintsHanging (Value.printArm · (.node n))
  | .arm, n => PrintsHanging (Value.printArmValue · (.node n))
  | .expression, n => n.isExpr = true ∧ PrintsInline n.printExpr
  | .term, n => PrintsInline (n.printTerm >>= Piece.toText)
  | .call, n => PrintsInline (n.printTerm >>= Piece.toText) ∧
      PrintsBlock (Node.printStatement · n)

/-- What is put into a line is a text if a text is made of it. -/
theorem Piece.eq_ok_of_bind_toText {printed : Except Fault Piece} {t : Text}
    (h : printed >>= Piece.toText = .ok t) : printed = .ok (.text t) := by
  rcases printed with fault | t' | v
  · cases h
  · cases h
    rfl
  · cases h

theorem PrintsHanging.block {printed : Text → Except Fault Text} (h : PrintsHanging printed) :
    PrintsBlock fun indent => (indent ++ ·) <$> printed indent := by
  obtain ⟨first, later, hangs, hprinted⟩ := h
  refine ⟨first :: later, List.cons_ne_nil _ _, hangs.isBlock, fun indent => ?_⟩
  show (indent ++ ·) <$> printed indent = _
  rw [hprinted, ← indent_append_hangingText]
  rfl

/-- Blocks one below the other. -/
theorem exists_mapM_block {p : Text → Value → Except Fault Text} {ns : List Node}
    (h : ∀ n ∈ ns, PrintsBlock (p · (.node n))) :
    ∃ ls, IsBlock ls ∧ ∀ indent, ∃ ts, (ns.map Value.node).mapM (p indent) = .ok ts ∧
      linesText ts = linesText (ls.map (indent ++ ·)) := by
  induction ns with
  | nil => exact ⟨[], .nil, fun _ => ⟨[], rfl, rfl⟩⟩
  | cons n ns ih =>
      obtain ⟨⟨ls, hne, hblock, hfirst⟩, hlater⟩ := List.forall_mem_cons.1 h
      obtain ⟨ls', hblock', htexts⟩ := ih hlater
      refine ⟨ls ++ ls', hblock.append hblock', fun indent => ?_⟩
      obtain ⟨ts, hprint, hlines⟩ := htexts indent
      have hprint' : p indent (.node n) = .ok (indentedText indent ls) := hfirst indent
      refine ⟨indentedText indent ls :: ts, ?_, ?_⟩
      · show (Value.node n :: ns.map .node).mapM (p indent) = _
        rw [List.mapM_cons, hprint', hprint]
        rfl
      · have hended : indentedText indent ls ++ ['\n'] = linesText (ls.map (indent ++ ·)) :=
          joinedLines_append_newline (mt List.map_eq_nil_iff.1 hne)
        rw [linesText_cons, hlines, hended, List.map_append, linesText_append]

/-- Texts of which each stands within a line. -/
theorem exists_mapM_inline {p : Value → Except Fault Text} {ns : List Node}
    (h : ∀ n ∈ ns, PrintsInline (p (.node n))) :
    ∃ ts, (ns.map Value.node).mapM p = .ok ts ∧ (∀ t ∈ ts, t.IsInline) ∧
      ts.length = ns.length := by
  obtain ⟨ts, hprint, hinline⟩ := exists_mapM_nodes (p := p) id h
  rw [List.map_id] at hprint
  have hboth : List.Forall₂ (fun t (_ : Node) => t.IsInline ∧ True) ts ns :=
    hinline.imp fun _ _ ht => ⟨ht, trivial⟩
  exact ⟨ts, hprint, ((List.forall₂_and_left ts ns).1 hboth).1, hinline.length_eq⟩

/-- Lines in braces, after the head of a construct. -/
theorem Hangs.braced {head : Text} {ls : List Text} (hhead : head.IsInline) (h : IsBlock ls) :
    Hangs (head ++ [' '] ++ ['{']) (ls.map deepened ++ [['}']]) :=
  h.braced.after hhead _ (by decide)

theorem braced_eq_hangingText {indent head : Text} {texts ls : List Text}
    (h : linesText texts = linesText (ls.map (deeper indent ++ ·))) :
    head ++ ' ' :: bracedLines indent texts =
      hangingText indent (head ++ [' '] ++ ['{']) (ls.map deepened ++ [['}']]) := by
  rw [bracedLines_eq h, ← append_hangingText]
  simp [hangingText]

section

variable {span : Option Span} {name : String} {ns : List Node}

/-! ## Type expressions -/

theorem inline_typeArguments (hname : IsName name) (h : ∀ n ∈ ns, LaidOut .typeExpr n) :
    ∃ ts, (Value.nodes ns).printTypeArguments = .ok (optionalParens ts) ∧
      Text.IsInline (name.toList ++ optionalParens ts) := by
  obtain ⟨ts, hprint, hinline, hlength⟩ := exists_mapM_inline (p := Value.printTypeExpr) h
  exact ⟨ts, printTypeArguments_eq_ok hprint hlength, hname.isInline.optionalParens hinline⟩

theorem LaidOut.typeExpr (hname : IsName name) (h : ∀ n ∈ ns, LaidOut .typeExpr n) :
    LaidOut .typeExpr (.typeExpr span (.text name) (.nodes ns)) := by
  obtain ⟨ts, hprint, hinline⟩ := inline_typeArguments hname h
  refine ⟨_, ?_, hinline⟩
  show (do
    let tail ← (Value.nodes ns).printTypeArguments
    pure (name.toList ++ tail)) = _
  rw [hprint]
  rfl

theorem LaidOut.typeOption (hname : IsName name) (h : ∀ n ∈ ns, LaidOut .typeExpr n) :
    LaidOut .typeOption (.typeOption span (.text name) (.nodes ns)) := by
  obtain ⟨ts, hprint, hinline⟩ := inline_typeArguments hname h
  refine ⟨_, ?_, hinline⟩
  show (do
    let tail ← (Value.nodes ns).printTypeArguments
    pure (name.toList ++ tail)) = _
  rw [hprint]
  rfl

/-! ## Expressions -/

theorem LaidOut.call (hname : IsName name) (h : ∀ n ∈ ns, LaidOut .expression n) :
    LaidOut .call (.call span (.text name) (.nodes ns)) := by
  obtain ⟨ts, hprint, hinline, -⟩ :=
    exists_mapM_inline (p := Value.printExpr) fun n hn => (h n hn).2
  have harguments : (Value.nodes ns).printArguments = .ok ts := by
    rw [← hprint, ← printExprs_eq_mapM]
    rfl
  have htext : Text.IsInline (name.toList ++ parenthesised ts) :=
    hname.isInline.append (Text.isInline_parenthesised hinline)
  refine ⟨⟨_, ?_, htext⟩, [_], List.cons_ne_nil _ _, htext.hangs.isBlock, fun indent => ?_⟩
  · show (do pure (Piece.text (name.toList ++ parenthesised (←
      (Value.nodes ns).printArguments)))) >>= Piece.toText = _
    rw [harguments]
    rfl
  · show (do
      pure (indent ++ name.toList ++ parenthesised (← (Value.nodes ns).printArguments))) = _
    rw [harguments, ← indent_append_hangingText, hangingText, List.map_nil, joinedLines_cons,
      List.flatMap_nil, List.append_nil, ← List.append_assoc]
    rfl

theorem LaidOut.expressionTerm {n : Node} (h : LaidOut .expression n) : LaidOut .term n := by
  obtain ⟨hexpr, t, hprint, hinline⟩ := h
  have hterm : Text.IsInline (parenthesised [t]) :=
    Text.isInline_parenthesised (List.forall_mem_singleton.2 hinline)
  refine ⟨parenthesised [t], ?_, hterm⟩
  rw [n.printTerm_of_isExpr hexpr, hprint]
  rfl

theorem LaidOut.expr {operators : List Operator} (hlength : ns.length = operators.length + 1)
    (h : ∀ n ∈ ns, LaidOut .term n) :
    LaidOut .expression (.expr span (.nodes ns) (.operators operators)) := by
  obtain ⟨ts, hts⟩ := exists_forall₂ h
  refine ⟨rfl, ?_⟩
  cases hts with
  | nil => exact absurd hlength (Nat.zero_ne_add_one _)
  | @cons t n ts ns hfirst hlater =>
      have hboth : List.Forall₂ (fun t (n : Node) => t.IsInline ∧ n.printTerm = .ok (.text t))
          ts ns := hlater.imp fun _ _ ht => ⟨ht.2, Piece.eq_ok_of_bind_toText ht.1⟩
      obtain ⟨hinline, hprint⟩ := (List.forall₂_and_left ts ns).1 hboth
      refine ⟨chainText operators t ts, ?_, hfirst.2.chain hinline⟩
      show (do
        let first ← n.printTerm
        spaced (first :: (← printOperands (operators.map .operator) (ns.map .node)))) = _
      rw [Piece.eq_ok_of_bind_toText hfirst.1, printOperands_eq_ok operators hprint]
      exact spaced_texts (t :: operandTexts operators ts)

/-! ## Bodies -/

theorem LaidOut.body {k : Option Node} (hstatements : ∀ n ∈ ns, LaidOut .statement n)
    (htrailing : ∀ n ∈ k, LaidOut .expression n) :
    LaidOut .body (.body span (.nodes ns) (.optionalNode k)) := by
  refine ⟨rfl, ?_⟩
  obtain ⟨ls, hblock, htexts⟩ := exists_mapM_block (p := Value.printStatement) hstatements
  cases k with
  | none =>
      refine ⟨ls, hblock, fun indent => ?_⟩
      obtain ⟨ts, hprint, hlines⟩ := htexts indent
      refine ⟨ts, ?_, hlines⟩
      show (printStatementLines indent (ns.map .node) >>= fun lines => pure lines) = _
      rw [printStatementLines_eq_mapM, hprint]
      rfl
  | some n =>
      obtain ⟨hexpr, t, hvalue, hinline⟩ := htrailing n rfl
      -- the value is one more line below the statements
      refine ⟨ls ++ [t], hblock.append hinline.hangs.isBlock, fun indent => ?_⟩
      obtain ⟨ts, hprint, hlines⟩ := htexts indent
      refine ⟨ts ++ [indent ++ t], ?_, ?_⟩
      · show (do
          let lines ← printStatementLines indent (ns.map .node)
          let last ← n.printValued indent
          pure (lines ++ [indent ++ (← last.toText)])) = _
        rw [printStatementLines_eq_mapM, hprint, n.printValued_of_isExpr hexpr, hvalue]
        rfl
      · rw [linesText_append, hlines, List.map_append, linesText_append]
        rfl

/-! ## Assignments and case constructs -/

theorem LaidOut.assignedExpression {n : Node} (h : LaidOut .expression n) :
    LaidOut .assigned n := by
  obtain ⟨hexpr, t, hprint, hinline⟩ := h
  refine ⟨t, [], hinline.hangs, fun indent => ?_⟩
  show n.printValued indent >>= Piece.toText = _
  rw [n.printValued_of_isExpr hexpr, hprint, hangingText_nil]
  rfl

theorem LaidOut.armExpression {n : Node} (h : LaidOut .expression n) : LaidOut .arm n := by
  obtain ⟨hexpr, t, hprint, hinline⟩ := h
  refine ⟨t, [], hinline.hangs, fun indent => ?_⟩
  show (Value.node n).printArmValue indent = _
  rw [n.printArmValue_of_isExpr hexpr, hprint, hangingText_nil]

theorem LaidOut.assign {targetSpan : Option Span} {kind : TargetKind} {value : Node}
    (hname : IsName name) (h : LaidOut .assigned value) :
    LaidOut .assignment
      (.assign span (.node (.target targetSpan (.targetKind kind) (.text name)))
        (.node value)) := by
  obtain ⟨first, later, hangs, hprint⟩ := h
  have htarget := isInline_assignmentText kind hname.isInline
  refine ⟨⟨_, _, _, rfl⟩, _, List.cons_ne_nil _ _,
    (hangs.after htarget [' '] (by decide)).isBlock, fun indent => ?_⟩
  show (do
    pure (indent ++ assignmentText kind name.toList ++
      ' ' :: (← value.printValued indent).display)) = _
  rw [Piece.eq_ok_of_bind_toText (hprint indent), ← indent_append_hangingText,
    ← append_hangingText]
  simp
  rfl

theorem LaidOut.armBody {n : Node} (h : LaidOut .body n) : LaidOut .arm n := by
  obtain ⟨hbody, ls, hblock, htexts⟩ := h
  refine ⟨['{'], ls.map deepened ++ [['}']], hblock.braced, fun indent => ?_⟩
  obtain ⟨ts, hprint, hlines⟩ := htexts (deeper indent)
  have hprint' : n.printBodyLines (deeper indent) = .ok ts := hprint
  show (if n.isBody then do
    pure (bracedLines indent (← n.printBodyLines (deeper indent))) else n.printExpr) = _
  rw [if_pos hbody, hprint']
  exact congrArg Except.ok (bracedLines_eq hlines)

theorem LaidOut.caseOption {patternSpan : Option Span} {bindings : List String} {value : Node}
    (hname : IsName name) (hbindings : ∀ s ∈ bindings, IsName s) (h : LaidOut .arm value) :
    LaidOut .caseOption
      (.caseOption span (.node (.casePattern patternSpan (.text name) (.names bindings)))
        (.node value)) := by
  obtain ⟨first, later, hangs, hprint⟩ := h
  have hpattern : Text.IsInline (name.toList ++ optionalParens (bindings.map String.toList)) :=
    hname.isInline.optionalParens (isInline_names hbindings)
  refine ⟨_, _, hangs.after hpattern " -> ".toList (by decide), fun indent => ?_⟩
  have hvalue : (Value.node value).printArmValue indent = .ok (hangingText indent first later) :=
    hprint indent
  show (do
    let left ← (Value.node (.casePattern patternSpan (.text name) (.names bindings))).printPattern
    pure (left ++ " -> ".toList ++ (← (Value.node value).printArmValue indent))) = _
  rw [printPattern_eq_ok, hvalue, ← append_hangingText]
  rfl

/-- The arms of a case construct, with its scrutinee before them. -/
theorem LaidOut.caseOf {scrutinee : Node} (hscrutinee : LaidOut .expression scrutinee)
    (h : ∀ n ∈ ns, LaidOut .caseOption n) :
    LaidOut .caseOf (.caseOf span (.node scrutinee) (.nodes ns)) := by
  obtain ⟨-, t, hexpr, hinline⟩ := hscrutinee
  obtain ⟨ls, hblock, htexts⟩ :=
    exists_mapM_block (p := fun indent v => (indent ++ ·) <$> v.printArm indent)
      fun n hn => (h n hn).block
  have hkeyword : Text.IsInline "case".toList := .of_all_isInk (by decide) (by decide)
  have hhead : Text.IsInline ("case ".toList ++ t) := hkeyword.around [' '] (by decide) hinline
  have hangs := Hangs.braced hhead hblock
  have hprint : ∀ indent, ∃ arms, printArmLines (deeper indent) (ns.map .node) = .ok arms ∧
      caseText indent t arms = hangingText indent ("case ".toList ++ t ++ [' '] ++ ['{'])
        (ls.map deepened ++ [['}']]) := by
    intro indent
    obtain ⟨arms, harms, hlines⟩ := htexts (deeper indent)
    rw [← printArmLines_eq_mapM] at harms
    exact ⟨arms, harms, braced_eq_hangingText hlines⟩
  refine ⟨⟨_, _, hangs, fun indent => ?_⟩, _, List.cons_ne_nil _ _, hangs.isBlock,
    fun indent => ?_⟩
  · obtain ⟨arms, harms, htext⟩ := hprint indent
    show (do
      let arms ← printArmLines (deeper indent) (ns.map .node)
      pure (Piece.text (caseText indent (← scrutinee.printExpr) arms))) >>= Piece.toText = _
    rw [harms, hexpr, ← htext]
    rfl
  · obtain ⟨arms, harms, htext⟩ := hprint indent
    show (do
      let arms ← printArmLines (deeper indent) (ns.map .node)
      pure (indent ++ caseText indent (← scrutinee.printExpr) arms)) = _
    rw [harms, hexpr, ← indent_append_hangingText, ← htext]
    rfl

/-! ## Items and programs -/

theorem LaidOut.functionDecl {parameters : List String} {block : Node} (hname : IsName name)
    (hparameters : ∀ s ∈ parameters, IsName s) (h : LaidOut .body block) :
    LaidOut .item (.functionDecl span (.text name) (.names parameters) (.node block)) := by
  obtain ⟨-, ls, hblock, htexts⟩ := h
  have hhead : Text.IsInline (name.toList ++ parenthesised (parameters.map String.toList)) :=
    hname.isInline.append (Text.isInline_parenthesised (isInline_names hparameters))
  refine ⟨_, List.cons_ne_nil _ _, (Hangs.braced hhead hblock).isBlock, fun indent => ?_⟩
  obtain ⟨ts, hprint, hlines⟩ := htexts (deeper indent)
  have hprint' : block.printBodyLines (deeper indent) = .ok ts := hprint
  show (do
    let names ← (Value.names parameters).toTexts
    let lines ← block.printBodyLines (deeper indent)
    pure (indent ++ name.toList ++ parenthesised names ++ ' ' :: bracedLines indent lines)) = _
  rw [toTexts_names, hprint', ← indent_append_hangingText, ← braced_eq_hangingText hlines]
  exact congrArg Except.ok (by simp)

theorem LaidOut.typeDecl {parameters : List String} (hname : IsName name)
    (hparameters : ∀ s ∈ parameters, IsName s) (h : ∀ n ∈ ns, LaidOut .typeOption n) :
    LaidOut .item (.typeDecl span (.text name) (.names parameters) (.nodes ns)) := by
  obtain ⟨ts, hprint, hinline, -⟩ := exists_mapM_inline (p := Value.printTypeOption) h
  have hkeyword : Text.IsInline "type".toList := .of_all_isInk (by decide) (by decide)
  have hhead : Text.IsInline
      ("type ".toList ++ (name.toList ++ optionalParens (parameters.map String.toList))) :=
    hkeyword.around [' '] (by decide)
      (hname.isInline.optionalParens (isInline_names hparameters))
  refine ⟨_, List.cons_ne_nil _ _, (Hangs.braced hhead (.of_inline hinline)).isBlock,
    fun indent => ?_⟩
  show (do
    let names ← (Value.names parameters).printTypeParameters
    let lines ← (ns.map Value.node).mapM Value.printTypeOption
    pure (indent ++ "type ".toList ++ name.toList ++ names ++
      ' ' :: bracedLines indent (lines.map fun line => deeper indent ++ line))) = _
  rw [printTypeParameters_eq_ok, hprint, ← indent_append_hangingText, ← braced_eq_hangingText rfl]
  exact congrArg Except.ok (by simp)

theorem LaidOut.assignmentItem {n : Node} (h : LaidOut .assignment n) : LaidOut .item n := by
  obtain ⟨⟨span, target, value, rfl⟩, hprinted⟩ := h
  exact hprinted

theorem LaidOut.program (h : ∀ n ∈ ns, LaidOut .item n) :
    LaidOut .program (.program span (.nodes ns)) := by
  obtain ⟨ls, hblock, htexts⟩ := exists_mapM_block (p := Value.printItem) h
  obtain ⟨ts, hprint, hlines⟩ := htexts []
  refine ⟨ls, hblock, ?_⟩
  show (do pure (linesText (← (ns.map Value.node).mapM (Value.printItem [])))) = _
  rw [hprint]
  refine congrArg Except.ok (hlines.trans ?_)
  exact congrArg linesText (List.map_id ls)

end

/-- Every grammatical node is laid out as it should be in its place. -/
theorem Grammatical.laidOut {place : Place} {n : Node} (h : Grammatical place n) :
    LaidOut place n := by
  induction h with
  | program _ ih => exact .program ih
  | functionDecl hname hparameters _ ih => exact .functionDecl hname hparameters ih
  | typeDecl hname hparameters _ _ ih => exact .typeDecl hname hparameters ih
  | assignmentItem _ ih => exact ih.assignmentItem
  | typeOption hname _ ih => exact .typeOption hname ih
  | typeExpr hname _ ih => exact .typeExpr hname ih
  | body _ _ _ ihStatements ihTrailing => exact .body ihStatements ihTrailing
  | assignmentStatement _ ih => exact ih.2
  | callStatement _ ih => exact ih.2
  | caseStatement _ ih => exact ih.2
  | assign hname _ ih => exact .assign hname ih
  | assignedCase _ ih => exact ih.1
  | assignedExpression _ ih => exact ih.assignedExpression
  | caseOf _ _ _ ihScrutinee ih => exact .caseOf ihScrutinee ih
  | caseOption hname hbindings _ ih => exact .caseOption hname hbindings ih
  | armExpression _ ih => exact ih.armExpression
  | armBody _ ih => exact ih.armBody
  | expr hlength _ ih => exact .expr hlength ih
  | callTerm _ ih => exact ih.1
  | expressionTerm _ ih => exact ih.expressionTerm
  | identifier hname => exact ⟨_, rfl, hname.isInline⟩
  | number hsign hpieces => exact ⟨_, rfl, isInline_number hsign hpieces⟩
  | call hname _ ih => exact .call hname ih

/-! ## Indentation -/

/-- Items, statements and bodies are printed with any indentation as the lines that they have
without it, each with the indentation before it, and case constructs likewise but for their first
line. In a printed program each line is indented for the braces that the lines before it leave
open. -/
theorem printed_indentation :
    (∀ n, Grammatical .item n → ∃ ls : List Text, ls ≠ [] ∧ (∀ line ∈ ls, '\n' ∉ line) ∧
      ∀ indent, (Value.node n).printItem indent = .ok (joinedLines (ls.map (indent ++ ·)))) ∧
    (∀ n, Grammatical .statement n → ∃ ls : List Text, ls ≠ [] ∧ (∀ line ∈ ls, '\n' ∉ line) ∧
      ∀ indent, (Value.node n).printStatement indent =
        .ok (joinedLines (ls.map (indent ++ ·)))) ∧
    (∀ n, Grammatical .body n → ∃ ls : List Text, (∀ line ∈ ls, '\n' ∉ line) ∧
      ∀ indent, (Value.node n).printBody indent = .ok (linesText (ls.map (indent ++ ·)))) ∧
    (∀ n, Grammatical .caseOf n → ∃ (first : Text) (later : List Text),
      (∀ line ∈ first :: later, '\n' ∉ line) ∧
      ∀ indent, (Value.node n).printCase indent =
        .ok (joinedLines (first :: later.map (indent ++ ·)))) ∧
    ∀ p, Grammatical .program p → ∃ ls, p.printProgram = .ok (linesText ls) ∧
      ∀ before line after, ls = before ++ line :: after →
        '\n' ∉ line ∧ line.IsIndented (braces before.flatten) := by
  refine ⟨fun n h => ?_, fun n h => ?_, fun n h => ?_, fun n h => ?_, fun p h => ?_⟩
  · obtain ⟨ls, hne, hblock, hprint⟩ := h.laidOut
    exact ⟨ls, hne, hblock.indented.newline_not_mem, hprint⟩
  · obtain ⟨ls, hne, hblock, hprint⟩ := h.laidOut
    exact ⟨ls, hne, hblock.indented.newline_not_mem, hprint⟩
  · obtain ⟨-, ls, hblock, htexts⟩ := h.laidOut
    refine ⟨ls, hblock.indented.newline_not_mem, fun indent => ?_⟩
    obtain ⟨ts, hprint, hlines⟩ := htexts indent
    have hprint' : (Value.node n).printBodyLines indent = .ok ts := hprint
    rw [Value.printBody, hprint', ← hlines]
    rfl
  · obtain ⟨⟨first, later, hangs, hprint⟩, -⟩ := h.laidOut
    refine ⟨first, later, hangs.isBlock.indented.newline_not_mem, fun indent => ?_⟩
    cases h with
    | caseOf => exact hprint indent
  · obtain ⟨ls, hblock, hprint⟩ := h.laidOut
    refine ⟨ls, hprint, fun before line after hls => ?_⟩
    have hline := hblock.indented.line hls
    rwa [Int.zero_add] at hline

/-- A body that is a case construct, with a body in its only arm. -/
def caseBody : Node := .body none (.nodes [keywordCase]) (.optionalNode none)

/-- `f() {`, with a case construct below it. -/
def caseFunction : Node := .functionDecl none (.text "f") (.names []) (.node caseBody)

example : (Value.node keywordCase).printCase [' '] =
    .ok "case case(x) \x7b\n   mut(case) -> \x7b\n     case\n   \x7d\n \x7d".toList := rfl

theorem printed_indentation_caseFunction :
    (Grammatical .item caseFunction ∧ ∃ ls : List Text, ls ≠ [] ∧ (∀ line ∈ ls, '\n' ∉ line) ∧
      ∀ indent, (Value.node caseFunction).printItem indent =
        .ok (joinedLines (ls.map (indent ++ ·)))) ∧
    (Grammatical .statement keywordCase ∧ ∃ ls : List Text, ls ≠ [] ∧
      (∀ line ∈ ls, '\n' ∉ line) ∧ ∀ indent, (Value.node keywordCase).printStatement indent =
        .ok (joinedLines (ls.map (indent ++ ·)))) ∧
    (Grammatical .body caseBody ∧ ∃ ls : List Text, (∀ line ∈ ls, '\n' ∉ line) ∧
      ∀ indent, (Value.node caseBody).printBody indent =
        .ok (linesText (ls.map (indent ++ ·)))) ∧
    (Grammatical .caseOf keywordCase ∧ ∃ (first : Text) (later : List Text),
      (∀ line ∈ first :: later, '\n' ∉ line) ∧
        ∀ indent, (Value.node keywordCase).printCase indent =
          .ok (joinedLines (first :: later.map (indent ++ ·)))) ∧
    Grammatical .program (.program none (.nodes [caseFunction])) ∧
      ∃ ls, (Node.program none (.nodes [caseFunction])).printProgram = .ok (linesText ls) ∧
        ∀ before line after, ls = before ++ line :: after →
          '\n' ∉ line ∧ line.IsIndented (braces before.flatten) := by
  obtain ⟨hitems, hstatements, hbodies, hcases, hprograms⟩ := printed_indentation
  have hcase := grammatical_keywordCase
  have hbody : Grammatical .body caseBody := by
    refine .body (List.forall_mem_singleton.2 (.caseStatement hcase)) ?_ ?_
    · rintro _ ⟨⟩
    · rintro _ ⟨⟩
  have hitem : Grammatical .item caseFunction := .functionDecl (by decide) (by decide) hbody
  have hprogram : Grammatical .program (.program none (.nodes [caseFunction])) :=
    .program (List.forall_mem_singleton.2 hitem)
  exact ⟨⟨hitem, hitems _ hitem⟩, ⟨.caseStatement hcase, hstatements _ (.caseStatement hcase)⟩,
    ⟨hbody, hbodies _ hbody⟩, ⟨hcase, hcases _ hcase⟩, hprogram, hprograms _ hprogram⟩

end Spruce
