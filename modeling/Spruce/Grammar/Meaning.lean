import Spruce.Diagnostic.Warning
import Spruce.Grammar.Derivation
import Spruce.Number.Literal
import Spruce.Tree.Basic

set_option autoImplicit false

/-!
# What derivations mean

Every nonterminal has a type of meanings: nodes for most, and for the others
lists of nodes, names, operators and the like. A rule gives the meaning of the
whole from the meanings of its parts and the span of all its tokens, those that
leave no other trace included. Parentheses around a term leave the node of the
expression in them, whose span does not cover them.

While a derivation is understood, remarks are made: warnings about names declared
twice, and signs that do not touch their numbers, which make the text
unacceptable after all. Remarks come in the order in which nodes are complete.

Main definitions: `Nonterminal.Meaning`, `ruleMeaning`, `ruleRemarks`, and
`Derivation.understand`.
-/

namespace Spruce

/-! ## Meanings -/

/-- The statements of a body, and the expression that gives it its value. -/
structure Lines where
  statements : List Node
  trailing : Option Node

/-- Lines with a statement before them. -/
def Lines.after (statement : Node) (lines : Lines) : Lines :=
  { lines with statements := statement :: lines.statements }

/-- The terms of an expression, and the operators between them. -/
structure Chain where
  terms : List Node
  operators : List Operator

/-- What the token sequences of a nonterminal mean. -/
def Nonterminal.Meaning : Nonterminal → Type
  | .program | .loneExpression | .item | .functionDecl | .typeDecl | .typeOption | .typeExpr
  | .body | .statement | .assignment | .target | .assignedValue | .trailing | .caseExpr
  | .caseOption | .pattern | .arm | .armBody | .expression | .term | .call | .reference
  | .number => Node
  | .items | .moreItems | .typeOptions | .moreTypeOptions | .typeArguments | .typeExprs
  | .moreTypeExprs | .caseOptions | .moreCaseOptions | .callArguments | .arguments
  | .moreArguments => List Node
  | .typeParameters | .optionalNames | .names | .moreNames | .bindings => List String
  | .bodyLines | .armLines | .moreArmLines => Lines
  | .chain | .moreChain => Chain
  | .optionalNewline => Unit
  | .sign => Token
  | .operator => Operator
  | .name => String

/-- What the token sequences of a symbol mean; a token means itself. -/
def Symbol.Meaning : Symbol → Type
  | .tok _ => Token
  | .sub x => x.Meaning

/-- The meanings of some symbols, one after another. -/
def Meanings : List Symbol → Type
  | [] => Unit
  | s :: ss => s.Meaning × Meanings ss

/-- The text of a token as a name. -/
def Token.name (t : Token) : String := String.ofList t.text

/-- The node of a number. -/
def numberNode (span : Option Span) (sign : Text) (number : Token) : Node :=
  let pieces := numeralPieces number.text
  .number span (.text (String.ofList sign)) (.text pieces.integer)
    (.optionalText pieces.fraction) (.optionalText pieces.exponent)

/-- The node of a body with the given lines. -/
def Lines.node (span : Option Span) (lines : Lines) : Node :=
  .body span (.nodes lines.statements) (.optionalNode lines.trailing)

/-- The node of an expression made of the given chain. -/
def Chain.node (span : Option Span) (chain : Chain) : Node :=
  .expr span (.nodes chain.terms) (.operators chain.operators)

/-- A chain with a term and an operator before it. -/
def Chain.after (term : Node) (operator : Operator) (chain : Chain) : Chain :=
  ⟨term :: chain.terms, operator :: chain.operators⟩

/-- A chain of one term. -/
def Chain.single (term : Node) : Chain := ⟨[term], []⟩

/-- The meaning of what a rule derives. -/
def ruleMeaning : {x : Nonterminal} → (rule : Rule x) → (span : Option Span) →
    Meanings rule.parts → x.Meaning
  | _, .program, span, ⟨_, items, _⟩ => Node.program span (.nodes items)
  | _, .noItems, _, _ => []
  | _, .someItems, _, ⟨item, items, _⟩ => item :: items
  | _, .lastItem, _, _ => []
  | _, .nextItems, _, ⟨_, items, _⟩ => items
  | _, .loneExpression, _, ⟨_, expression, _, _⟩ => expression
  | _, .noNewline, _, _ => ()
  | _, .newline, _, _ => ()
  | _, .functionItem, _, ⟨item, _⟩ => item
  | _, .typeItem, _, ⟨item, _⟩ => item
  | _, .assignmentItem, _, ⟨item, _⟩ => item
  | _, .functionDecl, span, ⟨name, _, parameters, _, _, _, body, _, _⟩ =>
      Node.functionDecl span (.text name) (.names parameters) (.node body)
  | _, .typeDecl, span, ⟨_, name, parameters, _, _, options, _, _⟩ =>
      Node.typeDecl span (.text name) (.names parameters) (.nodes options)
  | _, .noTypeParameters, _, _ => []
  | _, .typeParameters, _, ⟨_, names, _, _⟩ => names
  | _, .noNames, _, _ => []
  | _, .someNames, _, ⟨names, _⟩ => names
  | _, .names, _, ⟨name, names, _⟩ => name :: names
  | _, .lastName, _, _ => []
  | _, .nextNames, _, ⟨_, names, _⟩ => names
  | _, .typeOptions, _, ⟨option, _, options, _⟩ => option :: options
  | _, .lastTypeOption, _, _ => []
  | _, .nextTypeOptions, _, ⟨options, _⟩ => options
  | _, .typeOption, span, ⟨name, arguments, _⟩ =>
      Node.typeOption span (.text name) (.nodes arguments)
  | _, .noTypeArguments, _, _ => []
  | _, .typeArguments, _, ⟨_, arguments, _, _⟩ => arguments
  | _, .typeExprs, _, ⟨argument, arguments, _⟩ => argument :: arguments
  | _, .lastTypeExpr, _, _ => []
  | _, .nextTypeExprs, _, ⟨_, arguments, _⟩ => arguments
  | _, .typeExpr, span, ⟨name, arguments, _⟩ =>
      Node.typeExpr span (.text name) (.nodes arguments)
  | _, .body, span, ⟨lines, _⟩ => Lines.node span lines
  | _, .noLines, _, _ => Lines.mk [] none
  | _, .trailingLine, _, ⟨trailing, _, _⟩ => Lines.mk [] (some trailing)
  | _, .statementLine, _, ⟨statement, _, lines, _⟩ => Lines.after statement lines
  | _, .assignmentStatement, _, ⟨statement, _⟩ => statement
  | _, .callStatement, _, ⟨statement, _⟩ => statement
  | _, .caseStatement, _, ⟨statement, _⟩ => statement
  | _, .assignment, span, ⟨target, value, _⟩ => Node.assign span (.node target) (.node value)
  | _, .bindTarget, span, ⟨name, _, _⟩ => Node.target span (.targetKind .bind) (.text name)
  | _, .mutableTarget, span, ⟨_, name, _, _⟩ =>
      Node.target span (.targetKind .mutableBind) (.text name)
  | _, .updateTarget, span, ⟨name, _, _⟩ => Node.target span (.targetKind .update) (.text name)
  | _, .caseValue, _, ⟨value, _⟩ => value
  | _, .expressionValue, _, ⟨value, _⟩ => value
  | _, .chainTrailing, span, ⟨term, operator, chain, _⟩ =>
      Chain.node span (Chain.after term operator chain)
  | _, .referenceTrailing, span, ⟨reference, _⟩ => Chain.node span (Chain.single reference)
  | _, .numberTrailing, span, ⟨number, _⟩ => Chain.node span (Chain.single number)
  | _, .parenthesisedTrailing, span, ⟨_, expression, _, _⟩ =>
      Chain.node span (Chain.single expression)
  | _, .caseExpr, span, ⟨_, scrutinee, _, _, options, _, _⟩ =>
      Node.caseOf span (.node scrutinee) (.nodes options)
  | _, .caseOptions, _, ⟨option, _, options, _⟩ => option :: options
  | _, .lastCaseOption, _, _ => []
  | _, .nextCaseOptions, _, ⟨options, _⟩ => options
  | _, .caseOption, span, ⟨pattern, _, value, _⟩ =>
      Node.caseOption span (.node pattern) (.node value)
  | _, .pattern, span, ⟨name, bindings, _⟩ =>
      Node.casePattern span (.text name) (.names bindings)
  | _, .noBindings, _, _ => []
  | _, .bindings, _, ⟨_, names, _, _⟩ => names
  | _, .expressionArm, _, ⟨expression, _⟩ => expression
  | _, .bodyArm, _, ⟨_, _, body, _, _⟩ => body
  | _, .armBody, span, ⟨lines, _⟩ => Lines.node span lines
  | _, .noArmLines, _, _ => Lines.mk [] none
  | _, .trailingArmLine, _, ⟨trailing, _, _⟩ => Lines.mk [] (some trailing)
  | _, .statementArmLine, _, ⟨statement, lines, _⟩ => Lines.after statement lines
  | _, .lastArmLine, _, _ => Lines.mk [] none
  | _, .nextArmLines, _, ⟨_, lines, _⟩ => lines
  | _, .expression, span, ⟨chain, _⟩ => Chain.node span chain
  | _, .chain, _, ⟨term, ⟨terms, operators⟩, _⟩ => Chain.mk (term :: terms) operators
  | _, .lastTerm, _, _ => Chain.mk [] []
  | _, .nextTerms, _, ⟨operator, ⟨terms, operators⟩, _⟩ => Chain.mk terms (operator :: operators)
  | _, .callTerm, _, ⟨term, _⟩ => term
  | _, .referenceTerm, _, ⟨term, _⟩ => term
  | _, .numberTerm, _, ⟨term, _⟩ => term
  | _, .parenthesisedTerm, _, ⟨_, expression, _, _⟩ => expression
  | _, .call, span, ⟨name, _, arguments, _, _⟩ =>
      Node.call span (.text name) (.nodes arguments)
  | _, .noArguments, _, _ => []
  | _, .someArguments, _, ⟨arguments, _⟩ => arguments
  | _, .arguments, _, ⟨argument, arguments, _⟩ => argument :: arguments
  | _, .lastArgument, _, _ => []
  | _, .nextArguments, _, ⟨_, arguments, _⟩ => arguments
  | _, .reference, span, ⟨name, _⟩ => Node.identifier span (.text name)
  | _, .unsignedNumber, span, ⟨number, _⟩ => numberNode span [] number
  | _, .signedNumber, span, ⟨sign, number, _⟩ => numberNode span (Token.text sign) number
  | _, .plusSign, _, ⟨token, _⟩ => token
  | _, .minusSign, _, ⟨token, _⟩ => token
  | _, .addOperator, _, _ => Operator.add
  | _, .subtractOperator, _, _ => Operator.subtract
  | _, .multiplyOperator, _, _ => Operator.multiply
  | _, .divideOperator, _, _ => Operator.divide
  | _, .powerOperator, _, _ => Operator.power
  | _, .moduloOperator, _, _ => Operator.modulo
  | _, .equalOperator, _, _ => Operator.equal
  | _, .notEqualOperator, _, _ => Operator.notEqual
  | _, .lessEqualOperator, _, _ => Operator.lessEqual
  | _, .greaterEqualOperator, _, _ => Operator.greaterEqual
  | _, .lessOperator, _, _ => Operator.less
  | _, .greaterOperator, _, _ => Operator.greater
  | _, .identifierName, _, ⟨token, _⟩ => Token.name token
  | _, .typeName, _, ⟨token, _⟩ => Token.name token
  | _, .caseName, _, ⟨token, _⟩ => Token.name token
  | _, .mutName, _, ⟨token, _⟩ => Token.name token

/-! ## Remarks -/

/-- What is remarked of a text that follows the grammar. -/
inductive Remark where
  | warning (w : Warning)
  /-- A sign that does not touch the number after it. -/
  | detachedSign (sign : Token)
  deriving DecidableEq, Repr

/-- The names that occur more than once, each given once, in the order of their
characters. -/
def repeatedNames (names : List String) : List String :=
  (names.eraseDups.filter fun name => 1 < names.count name).mergeSort
    fun a b => decide (@LE.le (List Char) List.instLE a.toList b.toList)

/-- What is remarked of the use of a rule, given the meanings of its parts. -/
def ruleRemarks : {x : Nonterminal} → (rule : Rule x) → Meanings rule.parts → List Remark
  | _, .functionDecl, ⟨name, _, parameters, _⟩ =>
      (repeatedNames parameters).map fun p => .warning (.duplicateParameter p name)
  | _, .typeDecl, ⟨_, name, parameters, _⟩ =>
      (repeatedNames parameters).map fun p => .warning (.duplicateTypeParameter p name)
  | _, .signedNumber, ⟨sign, number, _⟩ =>
      if Token.stop sign = number.start.offset then [] else [.detachedSign sign]
  | _, _, _ => []

/-! ## Understanding derivations -/

/-- What a derivation of a symbol means, the stretch of text of its tokens, and
what is remarked of it. -/
structure Understood (s : Symbol) where
  extent : Option Extent
  meaning : s.Meaning
  remarks : List Remark

/-- The same of derivations one after another. -/
structure UnderstoodAll (ss : List Symbol) where
  extent : Option Extent
  meanings : Meanings ss
  remarks : List Remark

mutual

/-- What a derivation means in a file with the given name. -/
def Derivation.understand (filename : Option String) :
    {s : Symbol} → Derivation s → Understood s
  | _, .token _ token _ => ⟨some token.extent, token, []⟩
  | _, .node rule parts =>
      let below := parts.understand filename
      let span := below.extent.map (Span.ofExtent filename)
      ⟨below.extent, ruleMeaning rule span below.meanings,
        below.remarks ++ ruleRemarks rule below.meanings⟩
termination_by structural _ d => d

/-- What derivations one after another mean. -/
def Derivations.understand (filename : Option String) :
    {ss : List Symbol} → Derivations ss → UnderstoodAll ss
  | _, .nil => ⟨none, (), []⟩
  | _, .cons first rest =>
      let head := first.understand filename
      let tail := rest.understand filename
      ⟨Extent.cover head.extent tail.extent, (head.meaning, tail.meanings),
        head.remarks ++ tail.remarks⟩
termination_by structural _ ds => ds

end

end Spruce
