import Spruce.Proofs.Meaning.Invariants
import Spruce.Proofs.RoundTrip.Lone
import Spruce.Proofs.RoundTrip.PrintedAlike

set_option autoImplicit false

/-!
# Bodies whose value reads as a statement

A body made by hand may have for its value what is read as a statement: a case construct, or an
expression of nothing but a call. No text has such a tree. Its printed form is that of the tree in
which all these values are the last statements of their bodies (`Node.settled`), and that tree is
what the printed form is read as (`parse_printProgram_settled`).

Main definitions: `Writable`, the trees that are grammatical but for such values, and
`Node.settled`.
-/

namespace Spruce

variable {filename : Option String}

/-! ## Values that read as statements -/

/-- The statement that a node reads as on the last line of a body, if it reads as one: a case
construct is one, and an expression of nothing but a call is that call. -/
def Node.statement? : Node → Option Node
  | .caseOf span scrutinee options => some (.caseOf span scrutinee options)
  | .expr _ terms _ =>
      match terms.elements with
      | [.node n] => if n.isCall then some n else none
      | _ => none
  | _ => none

/-- A body whose value reads as a statement. -/
def Node.isLoose : Node → Bool
  | .body _ _ trailing => (trailing.node?.bind Node.statement?).isSome
  | _ => false

/-- A body with its value moved to the end of its statements, if that reads as a statement. -/
def settledBody (span : Option Span) (statements trailing : Value) : Node :=
  match trailing.node?.bind Node.statement? with
  | some n => .body span (.tuple (statements.elements ++ [.node n])) .absent
  | none => .body span statements trailing

mutual

/-- A node in which all bodies have the values that read as statements moved to the end of their
statements. -/
def Node.settled : Node → Node
  | .program span items => .program span items.settled
  | .functionDecl span name parameters block => .functionDecl span name parameters block.settled
  | .assign span destination value => .assign span destination value.settled
  | .body span statements trailing => settledBody span statements.settled trailing.settled
  | .caseOf span scrutinee options => .caseOf span scrutinee options.settled
  | .caseOption span pattern value => .caseOption span pattern value.settled
  | n => n
termination_by structural n => n

/-- The contents of a field with all bodies settled. -/
def Value.settled : Value → Value
  | .node n => .node n.settled
  | .sequence kind items => .sequence kind (settledAll items)
  | v => v
termination_by structural v => v

/-- Some values with all bodies settled. -/
def settledAll : List Value → List Value
  | [] => []
  | v :: vs => v.settled :: settledAll vs
termination_by structural vs => vs

end

theorem settled_nodes (ns : List Node) :
    (Value.nodes ns).settled = .nodes (ns.map Node.settled) := by
  show Value.tuple (settledAll (ns.map .node)) = _
  have hall : settledAll (ns.map .node) = (ns.map Node.settled).map .node := by
    induction ns with
    | nil => rfl
    | cons n ns ih => simp [settledAll, Value.settled, ih]
  rw [hall]
  rfl

theorem settled_optionalNode (n : Option Node) :
    (Value.optionalNode n).settled = .optionalNode (n.map Node.settled) := by
  cases n <;> rfl

/-- The nodes that can be written in a place: grammatical ones, and those that would be if any
value of a body could read as a statement. -/
inductive Writable : Place → Node → Prop where
  | program {span : Option Span} {items : List Node} (hitems : ∀ n ∈ items, Writable .item n) :
      Writable .program (.program span (.nodes items))
  | functionDecl {span : Option Span} {name : String} {parameters : List String} {block : Node}
      (hname : IsName name) (hparameters : ∀ s ∈ parameters, IsName s)
      (hblock : Writable .body block) :
      Writable .item (.functionDecl span (.text name) (.names parameters) (.node block))
  | typeDecl {span : Option Span} {name : String} {parameters : List String}
      {options : List Node} (hname : IsName name) (hparameters : ∀ s ∈ parameters, IsName s)
      (hne : options ≠ []) (hoptions : ∀ n ∈ options, Grammatical .typeOption n) :
      Writable .item (.typeDecl span (.text name) (.names parameters) (.nodes options))
  | assignmentItem {n : Node} (h : Writable .assignment n) : Writable .item n
  /-- The value of a body may be whatever can be assigned. -/
  | body {span : Option Span} {statements : List Node} {trailing : Option Node}
      (hstatements : ∀ n ∈ statements, Writable .statement n)
      (htrailing : ∀ n ∈ trailing, Writable .assigned n) :
      Writable .body (.body span (.nodes statements) (.optionalNode trailing))
  | assignmentStatement {n : Node} (h : Writable .assignment n) : Writable .statement n
  | callStatement {n : Node} (h : Grammatical .call n) : Writable .statement n
  | caseStatement {n : Node} (h : Writable .caseOf n) : Writable .statement n
  | assign {span targetSpan : Option Span} {kind : TargetKind} {name : String} {value : Node}
      (hname : IsName name) (hvalue : Writable .assigned value) :
      Writable .assignment
        (.assign span (.node (.target targetSpan (.targetKind kind) (.text name))) (.node value))
  | assignedCase {n : Node} (h : Writable .caseOf n) : Writable .assigned n
  | assignedExpression {n : Node} (h : Grammatical .expression n) : Writable .assigned n
  | caseOf {span : Option Span} {scrutinee : Node} {options : List Node}
      (hscrutinee : Grammatical .expression scrutinee) (hne : options ≠ [])
      (hoptions : ∀ n ∈ options, Writable .caseOption n) :
      Writable .caseOf (.caseOf span (.node scrutinee) (.nodes options))
  | caseOption {span patternSpan : Option Span} {name : String} {bindings : List String}
      {value : Node} (hname : IsName name) (hbindings : ∀ s ∈ bindings, IsName s)
      (hvalue : Writable .arm value) :
      Writable .caseOption
        (.caseOption span (.node (.casePattern patternSpan (.text name) (.names bindings)))
          (.node value))
  | armExpression {n : Node} (h : Grammatical .expression n) : Writable .arm n
  | armBody {n : Node} (h : Writable .body n) : Writable .arm n

/-! ## Printed forms -/

theorem printLast_caseOf (span : Option Span) (scrutinee options : Value) (indent : Text) :
    (do pure (indent ++ (← (← (Node.caseOf span scrutinee options).printValued indent).toText))) =
      (Node.caseOf span scrutinee options).printStatement indent := by
  show (do
    let last ← (do
      let arms ← options.printArms (deeper indent)
      pure (Piece.text (caseText indent (← scrutinee.printExpr) arms)))
    pure (indent ++ (← last.toText))) =
    (do
      let arms ← options.printArms (deeper indent)
      pure (indent ++ caseText indent (← scrutinee.printExpr) arms))
  cases options.printArms (deeper indent) with
  | error fault => rfl
  | ok arms => cases scrutinee.printExpr <;> rfl

theorem spaced_single (t : Text) : spaced [.text t] = .ok t := by
  show spaced ([t].map .text) = _
  rw [spaced_texts, List.intercalate_singleton]

theorem printLast_call (span exprSpan : Option Span) (callee arguments : Value)
    (operators : List Operator) (indent : Text) :
    (do pure (indent ++ (← (← (Node.expr exprSpan (.nodes [.call span callee arguments])
      (.operators operators)).printValued indent).toText))) =
      (Node.call span callee arguments).printStatement indent := by
  have hoperands : printOperands (operators.map .operator) [] = .ok [] := by
    cases operators <;> rfl
  show (do
    let last ← (do
      let line ← (do
        let first ← (do
          pure (Piece.text (callee.display ++ parenthesised (← arguments.printArguments))))
        spaced (first :: (← printOperands (operators.map .operator) [])))
      pure (Piece.text line))
    pure (indent ++ (← last.toText))) =
    (do pure (indent ++ callee.display ++ parenthesised (← arguments.printArguments)))
  rw [hoperands]
  cases arguments.printArguments with
  | error fault => rfl
  | ok texts =>
      show (do
        let last ← (do pure (Piece.text (← spaced [.text (callee.display ++ parenthesised texts)])))
        pure (indent ++ (← last.toText))) =
        Except.ok (indent ++ callee.display ++ parenthesised texts)
      rw [spaced_single, List.append_assoc]
      rfl

/-- What is printed alike on the last line of a body and as a statement of it can be either. -/
theorem PrintsAlike.lastStatement {span span' : Option Span} {statements : List Node}
    {v s : Node} (h : ∀ indent,
      (do pure (indent ++ (← (← v.printValued indent).toText))) = s.printStatement indent) :
    PrintsAlike .body (.body span (.nodes statements) (.node v))
      (.body span' (.nodes (statements ++ [s])) .absent) := by
  refine ⟨rfl, rfl, fun indent => ?_⟩
  show (do
    let lines ← printStatementLines indent (statements.map .node)
    let last ← v.printValued indent
    pure (lines ++ [indent ++ (← last.toText)])) =
    (printStatementLines indent ((statements ++ [s]).map .node) >>= fun lines => pure lines)
  rw [bind_pure, printStatementLines_eq_mapM, printStatementLines_eq_mapM, List.map_append,
    List.mapM_append, List.map_singleton, List.mapM_cons, List.mapM_nil]
  show _ = (do
    let lines ← (statements.map Value.node).mapM (Value.printStatement indent)
    let last ← (do
      let line ← s.printStatement indent
      pure [line])
    pure (lines ++ last))
  simp only [← h indent, bind_assoc, pure_bind]

/-- What can be assigned reads as a statement on the last line of a body and is printed there as
one, or it is an expression that is the value of a body. -/
theorem Grammatical.statement_or_value {v : Node} (h : Grammatical .assigned v) :
    (∃ s, v.statement? = some s ∧ Grammatical .statement s ∧ ∀ indent,
      (do pure (indent ++ (← (← v.printValued indent).toText))) = s.printStatement indent) ∨
    (v.statement? = none ∧ Grammatical .expression v ∧ v.isLoneCall = false) := by
  cases h with
  | assignedCase h =>
      cases h with
      | caseOf hscrutinee hne hoptions =>
          exact .inl ⟨_, rfl, .caseStatement (.caseOf hscrutinee hne hoptions),
            printLast_caseOf _ _ _⟩
  | assignedExpression h =>
      have hexpression := h
      cases h with
      | @expr span terms operators hlength hterms =>
          match terms with
          | [] => exact absurd hlength (Nat.succ_ne_zero _).symm
          | [n] =>
              cases hterms n List.mem_cons_self with
              | callTerm hcall =>
                  cases hcall with
                  | call hname harguments =>
                      exact .inl ⟨_, rfl, .callStatement (.call hname harguments),
                        printLast_call _ _ _ _ _⟩
              | expressionTerm hterm =>
                  have hcall : n.isCall = false := hterm.isCall_eq_false
                  have hnone : (if n.isCall then some n else none) = none := by
                    rw [hcall]
                    rfl
                  exact .inr ⟨hnone, hexpression, hcall⟩
              | identifier => exact .inr ⟨rfl, hexpression, rfl⟩
              | number => exact .inr ⟨rfl, hexpression, rfl⟩
          | _ :: _ :: _ => exact .inr ⟨rfl, hexpression, rfl⟩

theorem isSome_statement_of_isExpr {v : Node} (h : v.isExpr = true) :
    v.statement?.isSome = v.isLoneCall := by
  obtain ⟨span, terms, operators, rfl⟩ := v.exists_of_isExpr h
  show (match terms.elements with
      | [.node n] => if n.isCall then some n else none
      | _ => none).isSome =
    match terms.elements with
      | [.node n] => n.isCall
      | _ => false
  split
  · cases Node.isCall _ <;> rfl
  · rfl

/-- No body of a grammatical tree has a value that reads as a statement. -/
theorem Node.InGrammatical.isLoose_eq_false {n : Node} (h : n.InGrammatical) :
    n.isLoose = false := by
  obtain ⟨place, h⟩ | ⟨_, _, _, -, rfl⟩ | ⟨_, _, _, -, -, rfl⟩ := h
  · induction h with
    | @body _ _ trailing _ htrailing hcall =>
        cases trailing with
        | none => rfl
        | some v => exact (isSome_statement_of_isExpr (htrailing v rfl).isExpr).trans (hcall v rfl)
    | program | functionDecl | typeDecl | typeOption | typeExpr | assign | caseOf | caseOption
    | expr | identifier | number | call => rfl
    | assignmentItem _ ih | assignmentStatement _ ih | callStatement _ ih | caseStatement _ ih
    | assignedCase _ ih | assignedExpression _ ih | armExpression _ ih | armBody _ ih
    | callTerm _ ih | expressionTerm _ ih => exact ih
  · rfl
  · rfl

/-! ## Grammatical trees -/

/-- Grammatical nodes can be written, in every place where there may be bodies below. -/
theorem Grammatical.writable {place : Place} {n : Node} (h : Grammatical place n)
    (hplace : place ∉ [.typeOption, .typeExpr, .expression, .term, .call]) : Writable place n := by
  induction h with
  | program _ ih => exact .program fun n hn => ih n hn (by decide)
  | functionDecl hname hparameters _ ih =>
      exact .functionDecl hname hparameters (ih (by decide))
  | typeDecl hname hparameters hne hoptions => exact .typeDecl hname hparameters hne hoptions
  | assignmentItem _ ih => exact .assignmentItem (ih (by decide))
  | body _ htrailing _ ih =>
      exact .body (fun n hn => ih n hn (by decide)) fun n hn => .assignedExpression (htrailing n hn)
  | assignmentStatement _ ih => exact .assignmentStatement (ih (by decide))
  | callStatement h => exact .callStatement h
  | caseStatement _ ih => exact .caseStatement (ih (by decide))
  | assign hname _ ih => exact .assign hname (ih (by decide))
  | assignedCase _ ih => exact .assignedCase (ih (by decide))
  | assignedExpression h => exact .assignedExpression h
  | caseOf hscrutinee hne _ _ ih => exact .caseOf hscrutinee hne fun n hn => ih n hn (by decide)
  | caseOption hname hbindings _ ih => exact .caseOption hname hbindings (ih (by decide))
  | armExpression h => exact .armExpression h
  | armBody _ ih => exact .armBody (ih (by decide))
  | typeOption | typeExpr | expr | callTerm | expressionTerm | identifier | number | call =>
      exact absurd (by decide) hplace

/-- What can be written is grammatical if no value of a body in it reads as a statement. -/
theorem Writable.grammatical {place : Place} {n : Node} (h : Writable place n)
    (hloose : ∀ b, n.Has b → b.isLoose = false) : Grammatical place n := by
  induction h with
  | @program span items _ ih =>
      refine .program fun n hn => ih n hn fun b hb => hloose b (.child ?_ hb)
      show Value.node n ∈ items.map .node ++ []
      exact List.mem_append_left _ (List.mem_map_of_mem hn)
  | functionDecl hname hparameters _ ih =>
      exact .functionDecl hname hparameters (ih fun b hb => hloose b (.child List.mem_cons_self hb))
  | typeDecl hname hparameters hne hoptions => exact .typeDecl hname hparameters hne hoptions
  | assignmentItem _ ih => exact .assignmentItem (ih hloose)
  | @body span statements trailing _ _ ih ihtrailing =>
      have hstatements : ∀ n ∈ statements, Grammatical .statement n := by
        refine fun n hn => ih n hn fun b hb => hloose b (.child ?_ hb)
        exact List.mem_append_left _ (List.mem_map_of_mem hn)
      cases trailing with
      | none => exact .body hstatements (fun _ hn => nomatch hn) fun _ hn => nomatch hn
      | some v =>
          have hv : Grammatical .assigned v := by
            refine ihtrailing v rfl fun b hb => hloose b (.child ?_ hb)
            exact List.mem_append_right _ List.mem_cons_self
          have hself : v.statement?.isSome = false := hloose _ .refl
          rcases hv.statement_or_value with ⟨s, hs, -⟩ | ⟨-, hexpression, hcall⟩
          · rw [hs] at hself
            exact Bool.noConfusion hself
          · exact .body hstatements (fun n hn => Option.some.inj hn ▸ hexpression)
              fun n hn => Option.some.inj hn ▸ hcall
  | assignmentStatement _ ih => exact .assignmentStatement (ih hloose)
  | callStatement h => exact .callStatement h
  | caseStatement _ ih => exact .caseStatement (ih hloose)
  | assign hname _ ih =>
      refine .assign hname (ih fun b hb => hloose b (.child ?_ hb))
      exact List.mem_cons_of_mem _ List.mem_cons_self
  | assignedCase _ ih => exact .assignedCase (ih hloose)
  | assignedExpression h => exact .assignedExpression h
  | @caseOf span scrutinee options hscrutinee hne _ ih =>
      refine .caseOf hscrutinee hne fun n hn => ih n hn fun b hb => hloose b (.child ?_ hb)
      show Value.node n ∈ .node scrutinee :: (options.map .node ++ [])
      exact List.mem_cons_of_mem _ (List.mem_append_left _ (List.mem_map_of_mem hn))
  | caseOption hname hbindings _ ih =>
      refine .caseOption hname hbindings (ih fun b hb => hloose b (.child ?_ hb))
      exact List.mem_cons_of_mem _ List.mem_cons_self
  | armExpression h => exact .armExpression h
  | armBody _ ih => exact .armBody (ih hloose)

/-- The programs that are grammatical are those that can be written and have no body whose value
reads as a statement. -/
theorem grammatical_program_iff {p : Node} : Grammatical .program p ↔
    Writable .program p ∧ ∀ b, p.Has b → b.isLoose = false := by
  constructor
  · intro h
    have hin : p.InGrammatical := .inl ⟨_, h⟩
    exact ⟨h.writable (by decide), fun b hb => (hin.of_has hb).isLoose_eq_false⟩
  · rintro ⟨h, hloose⟩
    exact h.grammatical hloose

/-! ## Settled trees -/

/-- A body whose value can be assigned is grammatical once it is settled. -/
theorem settledBody_sound (span : Option Span) {statements : List Node} {trailing : Option Node}
    (hstatements : ∀ n ∈ statements, Grammatical .statement n)
    (htrailing : ∀ n ∈ trailing, Grammatical .assigned n) :
    Grammatical .body (settledBody span (.nodes statements) (.optionalNode trailing)) ∧
      PrintsAlike .body (.body span (.nodes statements) (.optionalNode trailing))
        (settledBody span (.nodes statements) (.optionalNode trailing)) := by
  have hnone : ∀ {P : Node → Prop}, ∀ n ∈ (none : Option Node), P n := fun n hn => nomatch hn
  cases trailing with
  | none => exact ⟨.body hstatements hnone hnone, rfl, rfl, fun _ => rfl⟩
  | some v =>
      rcases (htrailing v rfl).statement_or_value with ⟨s, hs, hstatement, hprint⟩ | ⟨hs, hv, hcall⟩
      · have hbody : settledBody span (.nodes statements) (.node v) =
            .body span (.nodes (statements ++ [s])) .absent := by
          show (match v.statement? with | some n => _ | none => _) = _
          rw [hs]
          show Node.body span (.tuple (statements.map .node ++ [.node s])) .absent = _
          rw [Value.nodes, List.map_append, List.map_singleton]
        have hall : ∀ n ∈ statements ++ [s], Grammatical .statement n :=
          List.forall_mem_append.2 ⟨hstatements, List.forall_mem_singleton.2 hstatement⟩
        have hgrammatical : Grammatical .body
            (.body span (.nodes (statements ++ [s])) (.optionalNode none)) :=
          .body hall hnone hnone
        rw [Value.optionalNode, hbody]
        exact ⟨hgrammatical, .lastStatement hprint⟩
      · have hbody : settledBody span (.nodes statements) (.node v) =
            .body span (.nodes statements) (.node v) := by
          show (match v.statement? with | some n => _ | none => _) = _
          rw [hs]
        have hgrammatical : Grammatical .body
            (.body span (.nodes statements) (.optionalNode (some v))) :=
          .body hstatements (fun n hn => Option.some.inj hn ▸ hv)
            fun n hn => Option.some.inj hn ▸ hcall
        rw [Value.optionalNode, hbody]
        exact ⟨hgrammatical, rfl, rfl, fun _ => rfl⟩

theorem forall_settled {place : Place} {ns : List Node}
    (h : ∀ n ∈ ns, Grammatical place n.settled ∧ PrintsAlike place n n.settled) :
    (∀ n ∈ ns.map Node.settled, Grammatical place n) ∧
      AllPrintAlike place ns (ns.map Node.settled) := by
  refine ⟨List.forall_mem_map.2 fun n hn => (h n hn).1, ?_⟩
  rw [AllPrintAlike, List.forall₂_map_right_iff, List.forall₂_same]
  exact fun n hn => (h n hn).2

theorem Grammatical.settled_expression {n : Node} (h : Grammatical .expression n) :
    n.settled = n := by
  cases h
  rfl

/-- Once it is settled, a tree that can be written is grammatical, and it is printed alike. -/
theorem Writable.settled {place : Place} {n : Node} (h : Writable place n) :
    Grammatical place n.settled ∧ PrintsAlike place n n.settled := by
  induction h with
  | @program span items _ ih =>
      obtain ⟨hall, halike⟩ := forall_settled ih
      show Grammatical .program (.program span (Value.nodes items).settled) ∧
        PrintsAlike .program _ (.program span (Value.nodes items).settled)
      rw [settled_nodes]
      exact ⟨.program hall, .program halike⟩
  | functionDecl hname hparameters _ ih =>
      exact ⟨.functionDecl hname hparameters ih.1, .functionDecl _ _ ih.2⟩
  | typeDecl hname hparameters hne hoptions =>
      exact ⟨.typeDecl hname hparameters hne hoptions, rfl⟩
  | assignmentItem _ ih => exact ih.imp .assignmentItem .assignmentItem
  | @body span statements trailing _ _ ihstatements ihtrailing =>
      obtain ⟨hall, halike⟩ := forall_settled ihstatements
      have hvalue : ∀ n ∈ trailing.map Node.settled, Grammatical .assigned n := by
        intro n hn
        obtain ⟨v, hv, rfl⟩ := Option.mem_map.1 hn
        exact (ihtrailing v hv).1
      have hvaluealike : Option.Rel (PrintsAlike .assigned) trailing
          (trailing.map Node.settled) := by
        cases trailing with
        | none => exact .none
        | some v => exact .some (ihtrailing v rfl).2
      show Grammatical .body (settledBody span (Value.nodes statements).settled
          (Value.optionalNode trailing).settled) ∧
        PrintsAlike .body _ (settledBody span (Value.nodes statements).settled
          (Value.optionalNode trailing).settled)
      rw [settled_nodes, settled_optionalNode]
      -- first what is below is settled, then the body itself
      have hbelow : PrintsAlike .body (.body span (.nodes statements) (.optionalNode trailing))
          (.body span (.nodes (statements.map Node.settled))
            (.optionalNode (trailing.map Node.settled))) := .body halike hvaluealike
      obtain ⟨hgrammatical, hself⟩ := settledBody_sound span hall hvalue
      exact ⟨hgrammatical, hbelow.1, hself.2.1,
        fun indent => (hbelow.2.2 indent).trans (hself.2.2 indent)⟩
  | assignmentStatement _ ih => exact ih.imp .assignmentStatement .assignmentStatement
  | callStatement h =>
      cases h with
      | call hname harguments =>
          exact ⟨.callStatement (.call hname harguments), fun _ => rfl⟩
  | caseStatement _ ih => exact ih.imp .caseStatement .caseStatement
  | assign hname _ ih => exact ⟨.assign hname ih.1, .assign _ _ ih.2⟩
  | assignedCase _ ih => exact ih.imp .assignedCase .assignedCase
  | assignedExpression h =>
      rw [h.settled_expression]
      exact ⟨.assignedExpression h, fun _ => rfl⟩
  | @caseOf span scrutinee options hscrutinee hne _ ih =>
      obtain ⟨hall, halike⟩ := forall_settled ih
      show Grammatical .caseOf (.caseOf span (.node scrutinee) (Value.nodes options).settled) ∧
        PrintsAlike .caseOf _ (.caseOf span (.node scrutinee) (Value.nodes options).settled)
      rw [settled_nodes]
      exact ⟨.caseOf hscrutinee (List.map_eq_nil_iff.not.2 hne) hall,
        .caseOf ⟨hscrutinee.isExpr, hscrutinee.isExpr, rfl⟩ halike⟩
  | caseOption hname hbindings _ ih =>
      exact ⟨.caseOption hname hbindings ih.1, .caseOption _ _ ih.2⟩
  | armExpression h =>
      rw [h.settled_expression]
      exact ⟨.armExpression h, fun _ => rfl⟩
  | armBody _ ih => exact ih.imp .armBody .armBody

/-! ## Parsing printed trees -/

/-- A program that would be grammatical if no value of a body in it read as a statement has a
printed form. Parsing that gives the program with all such values moved to the end of the statements
before them: another program, with the same printed form. -/
theorem parse_printProgram_settled (filename : Option String) {p : Node}
    (h : Writable .program p) (hloose : ∃ b, p.Has b ∧ b.isLoose = true) :
    ∃ text n, p.printProgram = .ok text ∧
      (parseProgram filename (String.ofList text)).outcome = .ok n ∧
        n.equal p.settled = true ∧ n.equal p = false ∧ n.printProgram = .ok text := by
  obtain ⟨hsettled, halike⟩ := h.settled
  obtain ⟨text, hprint, hreads⟩ := hsettled.printed filename
  have hprogram : Reads filename isSolid Start.program.goal text
      fun m => Node.equal m p.settled = true := hreads
  obtain ⟨n, hequal, hparse⟩ := exists_parse_of_reads hprogram
  have hgrammatical : Grammatical .program n := grammatical_of_parse hparse
  refine ⟨text, n, halike.trans hprint, ?_, hequal, ?_,
    (hgrammatical.of_equal hequal).2.trans hprint⟩
  · rw [parseProgram, String.toList_ofList]
    exact hparse
  · -- otherwise the printed program would be grammatical too
    refine Bool.eq_false_iff.2 fun hsame => ?_
    have hp : Grammatical .program p := (hgrammatical.of_equal hsame).1
    obtain ⟨b, hb, hvalue⟩ := hloose
    exact Bool.false_ne_true (((grammatical_program_iff.1 hp).2 b hb).symm.trans hvalue)

/-- A body whose value is a lone call. -/
def callBody : Node :=
  .body none (.nodes [.assign none (.node (.target none (.targetKind .update) (.text "x")))
      (.node (nameExpr "y"))])
    (.optionalNode (some (.expr none (.nodes [keywordCall]) (.operators []))))

/-- A case construct with an arm that leads to that body. -/
def looseCase : Node :=
  .caseOf none (.node (nameExpr "x")) (.nodes [.caseOption none
    (.node (.casePattern none (.text "mut") (.names []))) (.node callBody)])

/-- A function whose value is that case construct. -/
def looseProgram : Node :=
  .program none (.nodes [.functionDecl none (.text "f") (.names ["x"])
    (.node (.body none (.nodes []) (.optionalNode (some looseCase))))])

example : callBody.settled = .body none (.nodes [.assign none
    (.node (.target none (.targetKind .update) (.text "x"))) (.node (nameExpr "y")),
    keywordCall]) .absent := rfl

theorem parse_printProgram_settled_nested : Writable .program looseProgram ∧
    (∃ b, looseProgram.Has b ∧ b.isLoose = true) ∧
    ∃ text n, looseProgram.printProgram = .ok text ∧
      (parseProgram none (String.ofList text)).outcome = .ok n ∧
        n.equal looseProgram.settled = true ∧ n.equal looseProgram = false ∧
          n.printProgram = .ok text := by
  have hcall : Grammatical .call keywordCall :=
    .call (by decide) (List.forall_mem_singleton.2 grammatical_difference)
  have hassign : Writable .statement (.assign none
      (.node (.target none (.targetKind .update) (.text "x"))) (.node (nameExpr "y"))) :=
    .assignmentStatement (.assign (by decide)
      (.assignedExpression (grammatical_nameExpr (by decide))))
  have hvalue : Writable .assigned (.expr none (.nodes [keywordCall]) (.operators [])) :=
    .assignedExpression (.expr rfl (List.forall_mem_singleton.2 (.callTerm hcall)))
  have hbody : Writable .body callBody :=
    .body (List.forall_mem_singleton.2 hassign) fun _ hn => Option.some.inj hn ▸ hvalue
  have hcase : Writable .caseOf looseCase :=
    .caseOf (grammatical_nameExpr (by decide)) (List.cons_ne_nil _ _)
      (List.forall_mem_singleton.2 (.caseOption (by decide)
        (fun _ hs => absurd hs List.not_mem_nil) (.armBody hbody)))
  have hblock : Writable .body (.body none (.nodes []) (.optionalNode (some looseCase))) :=
    .body (fun _ hn => absurd hn List.not_mem_nil)
      fun _ hn => Option.some.inj hn ▸ .assignedCase hcase
  have h : Writable .program looseProgram :=
    .program (List.forall_mem_singleton.2 (.functionDecl (by decide)
      (List.forall_mem_singleton.2 (by decide)) hblock))
  have hloose : ∃ b, looseProgram.Has b ∧ b.isLoose = true :=
    ⟨_, .child List.mem_cons_self (.child List.mem_cons_self .refl), rfl⟩
  exact ⟨h, hloose, parse_printProgram_settled none h hloose⟩

end Spruce
