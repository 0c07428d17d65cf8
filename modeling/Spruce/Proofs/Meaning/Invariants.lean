import Spruce.Proofs.Meaning.Grammatical
import Spruce.Proofs.Precedence.Program
import Spruce.Proofs.Tree.Names

set_option autoImplicit false

/-!
# Invariants of trees that are read

What every tree that was read keeps to can be said node by node (`Node.IsRegular`): data types and
case constructs have options, expressions one more term than operators, numbers the pieces of a
numeral, and bodies nothing but assignments, calls and case constructs for statements and no lone
call for their value. Besides, all names in it are names (`regular_of_parse`).

Main definition: `Node.IsRegular`.
-/

namespace Spruce

/-! ## Regular nodes -/

/-- A node that can be a statement. -/
def Node.isStatement : Node → Bool
  | .assign .. | .call .. | .caseOf .. => true
  | _ => false

/-- A case construct. -/
def Node.isCase : Node → Bool
  | .caseOf .. => true
  | _ => false

/-- The statements of a body and its value, if it has one. What comes last is a statement if it is a
call or a case construct, and no call comes last as an expression of its own. -/
structure IsBody (statements : List Node) (trailing : Option Node) : Prop where
  isStatement : ∀ n ∈ statements, n.isStatement = true
  isValue : ∀ n ∈ trailing, n.isExpr = true ∧ n.isLoneCall = false
  last_isStatement : ∀ n, (statements ++ trailing.toList).getLast? = some n →
    n.isCall = true ∨ n.isLoneCall = true ∨ n.isCase = true →
      trailing = none ∧ statements.getLast? = some n

/-- What every node of a tree that was read keeps to, by its type. -/
def Node.IsRegular : Node → Prop
  | .typeDecl _ _ _ options | .caseOf _ _ options => ∃ ns : List Node, options = .nodes ns ∧ ns ≠ []
  | .expr _ terms operators =>
      ∃ (ns : List Node) (os : List Operator), terms = .nodes ns ∧ operators = .operators os ∧
        ns.length = os.length + 1
  | .number _ sign integer fraction exponent =>
      ∃ (s i : String) (f e : Option String), sign = .text s ∧ integer = .text i ∧
        fraction = .optionalText f ∧ exponent = .optionalText e ∧ (s = "" ∨ s = "+" ∨ s = "-") ∧
          IsNumeral i.toList (f.map String.toList) (e.map String.toList)
  | .body _ statements trailing =>
      ∃ (ns : List Node) (e : Option Node), statements = .nodes ns ∧ trailing = .optionalNode e ∧
        IsBody ns e
  | _ => True

/-! ## Grammatical trees -/

theorem Grammatical.isStatement {place : Place} {n : Node} (h : Grammatical place n)
    (hplace : place = .statement ∨ place = .assignment ∨ place = .call ∨ place = .caseOf) :
    n.isStatement = true := by
  induction h with
  | assignmentStatement _ ih => exact ih (.inr (.inl rfl))
  | callStatement _ ih => exact ih (.inr (.inr (.inl rfl)))
  | caseStatement _ ih => exact ih (.inr (.inr (.inr rfl)))
  | assign | call | caseOf => rfl
  | _ => simp at hplace

theorem isBody_of_grammatical {statements : List Node} {trailing : Option Node}
    (hstatements : ∀ n ∈ statements, Grammatical .statement n)
    (htrailing : ∀ n ∈ trailing, Grammatical .expression n)
    (hcall : ∀ n ∈ trailing, n.isLoneCall = false) : IsBody statements trailing where
  isStatement n hn := (hstatements n hn).isStatement (.inl rfl)
  isValue n hn := ⟨(htrailing n hn).isExpr, hcall n hn⟩
  last_isStatement n hlast hn := by
    cases trailing with
    | none =>
        rw [Option.toList_none, List.append_nil] at hlast
        exact ⟨rfl, hlast⟩
    | some e =>
        rw [Option.toList_some, List.getLast?_concat] at hlast
        obtain rfl := Option.some.inj hlast
        -- an expression is neither a call nor a case construct
        have hlone := hcall e rfl
        have hexpression := htrailing e rfl
        cases hexpression with
        | expr =>
            rcases hn with hn | hn | hn
            · exact Bool.noConfusion hn
            · exact absurd hn (Bool.eq_false_iff.1 hlone)
            · exact Bool.noConfusion hn

/-- The nodes of a grammatical tree are regular. -/
theorem Node.InGrammatical.isRegular {n : Node} (h : n.InGrammatical) : n.IsRegular := by
  obtain ⟨place, h⟩ | ⟨_, _, _, -, rfl⟩ | ⟨_, _, _, -, -, rfl⟩ := h
  · induction h with
    | typeDecl _ _ hne _ | caseOf _ hne _ => exact ⟨_, rfl, hne⟩
    | expr hlength _ => exact ⟨_, _, rfl, rfl, hlength⟩
    | number hsign hpieces => exact ⟨_, _, _, _, rfl, rfl, rfl, rfl, hsign, hpieces⟩
    | body hstatements htrailing hcall =>
        exact ⟨_, _, rfl, rfl, isBody_of_grammatical hstatements htrailing hcall⟩
    | program | functionDecl | typeOption | typeExpr | assign | caseOption | identifier
    | call => exact trivial
    | assignmentItem _ ih | assignmentStatement _ ih | callStatement _ ih | caseStatement _ ih
    | assignedCase _ ih | assignedExpression _ ih | armExpression _ ih | armBody _ ih
    | callTerm _ ih | expressionTerm _ ih => exact ih
  · exact trivial
  · exact trivial

/-! ## Names -/

theorem allNames_text {s : String} (h : IsName s) : AllNames (Value.text s).mentions :=
  List.forall_mem_singleton.2 h

theorem allNames_names {ss : List String} (h : AllNames ss) :
    AllNames (Value.names ss).mentions := by
  rwa [mentions_names]

theorem allNames_operators (os : List Operator) : AllNames (Value.operators os).mentions := by
  rw [mentions_operators]
  exact fun s hs => absurd hs List.not_mem_nil

theorem allNames_nodes {ns : List Node} (h : ∀ n ∈ ns, AllNames n.mentions) :
    AllNames (Value.nodes ns).mentions := by
  intro s hs
  rw [mentions_nodes] at hs
  obtain ⟨n, hn, hs⟩ := List.mem_flatMap.1 hs
  exact h n hn s hs

theorem allNames_optionalNode {n : Option Node} (h : ∀ m ∈ n, AllNames m.mentions) :
    AllNames (Value.optionalNode n).mentions := by
  cases n with
  | none => exact fun s hs => absurd hs List.not_mem_nil
  | some n => exact h n rfl

/-- The names in a node that is no number are names if those in its fields are. -/
theorem allNames_node {type : NodeType} {span : Option Span} {fields : List Value}
    (h : ∀ v ∈ fields, AllNames v.mentions) : AllNames (⟨type, span, fields⟩ : Node).mentions := by
  intro s hs
  rw [Node.mentions] at hs
  split at hs
  · exact absurd hs List.not_mem_nil
  · rw [mentionsAll_eq] at hs
    obtain ⟨v, hv, hs⟩ := List.mem_flatMap.1 hs
    exact h v hv s hs

/-- The same of a node with two fields. -/
theorem allNames_two {type : NodeType} {span : Option Span} {v w : Value}
    (hv : AllNames v.mentions) (hw : AllNames w.mentions) :
    AllNames (⟨type, span, [v, w]⟩ : Node).mentions :=
  allNames_node (List.forall_mem_cons.2 ⟨hv, List.forall_mem_singleton.2 hw⟩)

/-- The same of a declaration, with a name, the names of parameters, and what is declared. -/
theorem allNames_declaration {type : NodeType} {span : Option Span} {name : String}
    {parameters : List String} {v : Value} (hname : IsName name)
    (hparameters : AllNames parameters) (hv : AllNames v.mentions) :
    AllNames (⟨type, span, [.text name, .names parameters, v]⟩ : Node).mentions :=
  allNames_node (List.forall_mem_cons.2 ⟨allNames_text hname,
    List.forall_mem_cons.2 ⟨allNames_names hparameters, List.forall_mem_singleton.2 hv⟩⟩)

/-- All names in a grammatical tree are names. -/
theorem Grammatical.allNames {place : Place} {n : Node} (h : Grammatical place n) :
    AllNames n.mentions := by
  induction h with
  | program _ ih => exact allNames_node (List.forall_mem_singleton.2 (allNames_nodes ih))
  | functionDecl hname hparameters _ ih => exact allNames_declaration hname hparameters ih
  | typeDecl hname hparameters _ _ ih =>
      exact allNames_declaration hname hparameters (allNames_nodes ih)
  | typeOption hname _ ih | typeExpr hname _ ih | call hname _ ih =>
      exact allNames_two (allNames_text hname) (allNames_nodes ih)
  | body _ _ _ ihstatements ihtrailing =>
      exact allNames_two (allNames_nodes ihstatements) (allNames_optionalNode ihtrailing)
  | assign hname _ ih => exact allNames_two (allNames_text hname) ih
  | caseOf _ _ _ ihscrutinee ihoptions => exact allNames_two ihscrutinee (allNames_nodes ihoptions)
  | @caseOption _ patternSpan name bindings _ hname hbindings _ ih =>
      have hpattern : AllNames (Node.casePattern patternSpan (.text name)
          (.names bindings)).mentions :=
        allNames_two (allNames_text hname) (allNames_names hbindings)
      exact allNames_two hpattern ih
  | expr _ _ ih => exact allNames_two (allNames_nodes ih) (allNames_operators _)
  | identifier hname => exact allNames_node (List.forall_mem_singleton.2 (allNames_text hname))
  | number => exact fun s hs => absurd hs List.not_mem_nil
  | assignmentItem _ ih | assignmentStatement _ ih | callStatement _ ih | caseStatement _ ih
  | assignedCase _ ih | assignedExpression _ ih | armExpression _ ih | armBody _ ih
  | callTerm _ ih | expressionTerm _ ih => exact ih

/-! ## Trees of texts -/

/-- No tokens can be read both as a statement and as an expression that is the value of a body. -/
theorem Derivation.statement_tokens_ne_trailing (statement : Derivation (.sub .statement))
    (trailing : Derivation (.sub .trailing)) : statement.tokens ≠ trailing.tokens := by
  intro h
  let line : List Token := [Token.at .newline ['\n'] .origin]
  have hstatement : ahead line ∈ Nonterminal.statement.follow := by decide
  have htrailing : ahead line ∈ Nonterminal.trailing.follow := by decide
  exact statement_tokens_ne statement trailing hstatement htrailing (congrArg (· ++ line) h)

/-- Every tree that was read is a tree all of whose nodes are regular and all of whose names are
names. What can be read as a call or a case construct, or any other statement, is never read as the
value of a body, so that on the last line of one it is the last statement. -/
theorem regular_of_parse (start : Start) (filename : Option String) (text : Text) (root : Node)
    (h : (parse start filename text).outcome = .ok root) :
    (Value.node root).walk.obstacle = none ∧
    (∀ n ∈ (Value.node root).walk.nodes, n.IsRegular) ∧
    (∀ s ∈ root.mentions, IsName s) ∧
    ∀ (statement : Derivation (.sub .statement)) (trailing : Derivation (.sub .trailing)),
      statement.tokens ≠ trailing.tokens := by
  have hgrammatical := grammatical_of_parse h
  have hin : root.InGrammatical := .inl ⟨_, hgrammatical⟩
  obtain ⟨hobstacle, hnodes⟩ := walk_of_isTree hin.isTree
  refine ⟨hobstacle, ?_, hgrammatical.allNames, Derivation.statement_tokens_ne_trailing⟩
  intro n hn
  exact (hin.of_has ((hnodes n).1 hn)).isRegular

/-- The lexemes of a function `f` whose only line is the call `g()`. -/
def callBodyLexemes : List Lexeme :=
  [⟨some .identifier, ['f']⟩, ⟨some .leftParen, ['(']⟩, ⟨some .rightParen, [')']⟩,
    ⟨some .leftBrace, ['{']⟩, ⟨some .newline, ['\n']⟩, ⟨some .identifier, ['g']⟩,
    ⟨some .leftParen, ['(']⟩, ⟨some .rightParen, [')']⟩, ⟨some .newline, ['\n']⟩,
    ⟨some .rightBrace, ['}']⟩]

/-- The derivation of that function as a program. -/
def callBodyDerivation : Derivation Start.program.goal :=
  .node .program (.cons (.node .noNewline .nil) (.cons (.node .someItems (.cons
    (.node .functionItem (.cons (.node .functionDecl
      (.cons (.node .identifierName
        (.cons (.token .identifier (.at .identifier ['f'] .origin) rfl) .nil))
      (.cons (.token .leftParen (.at .leftParen ['('] ⟨1, 1, 2⟩) rfl)
      (.cons (.node .noNames .nil)
      (.cons (symbolAt .rightParen ⟨2, 1, 3⟩)
      (.cons (.token .leftBrace (.at .leftBrace ['{'] ⟨3, 1, 4⟩) rfl)
      (.cons (.token .newline (.at .newline ['\n'] ⟨4, 1, 5⟩) rfl)
      (.cons (.node .body (.cons (.node .statementLine
        (.cons (.node .callStatement (.cons (.node .call
          (.cons (.node .identifierName
            (.cons (.token .identifier (.at .identifier ['g'] ⟨5, 2, 1⟩) rfl) .nil))
          (.cons (.token .leftParen (.at .leftParen ['('] ⟨6, 2, 2⟩) rfl)
          (.cons (.node .noArguments .nil)
          (.cons (.token .rightParen (.at .rightParen [')'] ⟨7, 2, 3⟩) rfl) .nil))))) .nil))
        (.cons (.token .newline (.at .newline ['\n'] ⟨8, 2, 4⟩) rfl)
        (.cons (.node .noLines .nil) .nil)))) .nil))
      (.cons (.token .rightBrace (.at .rightBrace ['}'] ⟨9, 3, 1⟩) rfl) .nil))))))))) .nil))
    (.cons (.node .lastItem .nil) .nil))) .nil))

/-- That function is accepted: its names are `f` and `g`, and its nodes are regular. -/
theorem regular_of_parse_call :
    ∃ root, (parse .program none (textOf callBodyLexemes)).outcome = .ok root ∧
      root.mentions = ["f", "g"] ∧ (∀ s ∈ root.mentions, IsName s) ∧
      ∀ n ∈ (Value.node root).walk.nodes, n.IsRegular := by
  have hcut : AreCut callBodyLexemes :=
    .cons rfl (.cons rfl (.cons rfl (.cons rfl (.cons rfl (.cons rfl (.cons rfl (.cons rfl
      (.cons rfl (.cons rfl .nil)))))))))
  obtain ⟨hrest, htokens⟩ := lex_textOf hcut
  have haccepted : (parse .program none (textOf callBodyLexemes)).outcome =
      .ok (callBodyDerivation.understand none).meaning :=
    parse_eq_ok_iff.2 ⟨hrest, callBodyDerivation, htokens.symm, rfl, rfl⟩
  obtain ⟨-, hregular, hnames, -⟩ := regular_of_parse .program none _ _ haccepted
  exact ⟨_, haccepted, rfl, hnames, hregular⟩

end Spruce
