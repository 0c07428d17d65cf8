import Spruce.Token.Terminal

set_option autoImplicit false

/-!
# The grammar

The grammar of the language as data. A nonterminal stands for a class of token
sequences, and each of its rules says of what parts such a sequence may consist.
Repetitions and optional parts have nonterminals of their own. Where several
kinds of part begin alike, what they begin with is mostly shared, so that few ways
to go on have to be kept in mind at any place.

Keywords double as names, so that one token does not always decide between two
rules: `case (x) {` begins a case construct and `case(x)` is a call.

Main definitions: `Nonterminal`, `Symbol`, the family `Rule` of the rules of each
nonterminal, and `Rule.parts`, the right-hand side of a rule.
-/

namespace Spruce

/-! ## Symbols -/

/-- Classes of token sequences. -/
inductive Nonterminal where
  /-- Whole programs. -/
  | program
  /-- Items with newlines between them, and perhaps after the last. -/
  | items
  /-- What may follow an item. -/
  | moreItems
  /-- An expression that is a whole text. -/
  | loneExpression
  /-- A newline that may be left out. -/
  | optionalNewline
  /-- Functions, data types and assignments. -/
  | item
  /-- Function declarations. -/
  | functionDecl
  /-- Data type declarations. -/
  | typeDecl
  /-- Parameters of a data type, which may be left out. -/
  | typeParameters
  /-- Names with commas between them, perhaps none. -/
  | optionalNames
  /-- Names with commas between them. -/
  | names
  /-- What may follow a name in a list. -/
  | moreNames
  /-- Constructors of a data type, one a line. -/
  | typeOptions
  /-- What may follow a constructor. -/
  | moreTypeOptions
  /-- One constructor. -/
  | typeOption
  /-- Type arguments, which may be left out. -/
  | typeArguments
  /-- Type expressions with commas between them. -/
  | typeExprs
  /-- What may follow a type expression in a list. -/
  | moreTypeExprs
  /-- Type expressions. -/
  | typeExpr
  /-- Bodies of functions. -/
  | body
  /-- The lines of a function body. -/
  | bodyLines
  /-- Assignments, calls and case constructs. -/
  | statement
  /-- Assignments. -/
  | assignment
  /-- Left-hand sides of assignments. -/
  | target
  /-- What may be assigned. -/
  | assignedValue
  /-- The expression that gives a body its value: any but a lone call. -/
  | trailing
  /-- Case constructs. -/
  | caseExpr
  /-- Arms of a case construct, one a line. -/
  | caseOptions
  /-- What may follow an arm. -/
  | moreCaseOptions
  /-- One arm. -/
  | caseOption
  /-- Left-hand sides of arms. -/
  | pattern
  /-- Names that a pattern binds, which may be left out. -/
  | bindings
  /-- What an arm leads to. -/
  | arm
  /-- Bodies of arms. -/
  | armBody
  /-- The lines of an arm body, of which the last need not be ended. -/
  | armLines
  /-- What may follow a statement of an arm body. -/
  | moreArmLines
  /-- Expressions. -/
  | expression
  /-- Terms with operators between them. -/
  | chain
  /-- What may follow a term of a chain. -/
  | moreChain
  /-- Terms. -/
  | term
  /-- Function calls. -/
  | call
  /-- Arguments of a call, perhaps none. -/
  | callArguments
  /-- Expressions with commas between them. -/
  | arguments
  /-- What may follow an argument. -/
  | moreArguments
  /-- Names used as values. -/
  | reference
  /-- Numbers with an optional sign. -/
  | number
  /-- Signs of numbers. -/
  | sign
  /-- Binary operators. -/
  | operator
  /-- Names, keywords included. -/
  | name
  deriving DecidableEq, Repr

/-- What the right-hand side of a rule consists of: tokens, and parts with rules of
their own. -/
inductive Symbol where
  | tok (t : Terminal)
  | sub (x : Nonterminal)
  deriving DecidableEq, Repr

/-! ## Rules -/

/-- The rules of each nonterminal. -/
inductive Rule : Nonterminal → Type where
  | program : Rule .program
  | noItems : Rule .items
  | someItems : Rule .items
  | lastItem : Rule .moreItems
  | nextItems : Rule .moreItems
  | loneExpression : Rule .loneExpression
  | noNewline : Rule .optionalNewline
  | newline : Rule .optionalNewline
  | functionItem : Rule .item
  | typeItem : Rule .item
  | assignmentItem : Rule .item
  | functionDecl : Rule .functionDecl
  | typeDecl : Rule .typeDecl
  | noTypeParameters : Rule .typeParameters
  | typeParameters : Rule .typeParameters
  | noNames : Rule .optionalNames
  | someNames : Rule .optionalNames
  | names : Rule .names
  | lastName : Rule .moreNames
  | nextNames : Rule .moreNames
  | typeOptions : Rule .typeOptions
  | lastTypeOption : Rule .moreTypeOptions
  | nextTypeOptions : Rule .moreTypeOptions
  | typeOption : Rule .typeOption
  | noTypeArguments : Rule .typeArguments
  | typeArguments : Rule .typeArguments
  | typeExprs : Rule .typeExprs
  | lastTypeExpr : Rule .moreTypeExprs
  | nextTypeExprs : Rule .moreTypeExprs
  | typeExpr : Rule .typeExpr
  | body : Rule .body
  | noLines : Rule .bodyLines
  | trailingLine : Rule .bodyLines
  | statementLine : Rule .bodyLines
  | assignmentStatement : Rule .statement
  | callStatement : Rule .statement
  | caseStatement : Rule .statement
  | assignment : Rule .assignment
  | bindTarget : Rule .target
  | mutableTarget : Rule .target
  | updateTarget : Rule .target
  | caseValue : Rule .assignedValue
  | expressionValue : Rule .assignedValue
  | chainTrailing : Rule .trailing
  | referenceTrailing : Rule .trailing
  | numberTrailing : Rule .trailing
  | parenthesisedTrailing : Rule .trailing
  | caseExpr : Rule .caseExpr
  | caseOptions : Rule .caseOptions
  | lastCaseOption : Rule .moreCaseOptions
  | nextCaseOptions : Rule .moreCaseOptions
  | caseOption : Rule .caseOption
  | pattern : Rule .pattern
  | noBindings : Rule .bindings
  | bindings : Rule .bindings
  | expressionArm : Rule .arm
  | bodyArm : Rule .arm
  | armBody : Rule .armBody
  | noArmLines : Rule .armLines
  | trailingArmLine : Rule .armLines
  | statementArmLine : Rule .armLines
  | lastArmLine : Rule .moreArmLines
  | nextArmLines : Rule .moreArmLines
  | expression : Rule .expression
  | chain : Rule .chain
  | lastTerm : Rule .moreChain
  | nextTerms : Rule .moreChain
  | callTerm : Rule .term
  | referenceTerm : Rule .term
  | numberTerm : Rule .term
  | parenthesisedTerm : Rule .term
  | call : Rule .call
  | noArguments : Rule .callArguments
  | someArguments : Rule .callArguments
  | arguments : Rule .arguments
  | lastArgument : Rule .moreArguments
  | nextArguments : Rule .moreArguments
  | reference : Rule .reference
  | unsignedNumber : Rule .number
  | signedNumber : Rule .number
  | plusSign : Rule .sign
  | minusSign : Rule .sign
  | addOperator : Rule .operator
  | subtractOperator : Rule .operator
  | multiplyOperator : Rule .operator
  | divideOperator : Rule .operator
  | powerOperator : Rule .operator
  | moduloOperator : Rule .operator
  | equalOperator : Rule .operator
  | notEqualOperator : Rule .operator
  | lessEqualOperator : Rule .operator
  | greaterEqualOperator : Rule .operator
  | lessOperator : Rule .operator
  | greaterOperator : Rule .operator
  | identifierName : Rule .name
  | typeName : Rule .name
  | caseName : Rule .name
  | mutName : Rule .name
  deriving DecidableEq

/-- The right-hand side of a rule. -/
def Rule.parts {x : Nonterminal} : Rule x → List Symbol
  | .program => [.sub .optionalNewline, .sub .items]
  | .noItems => []
  | .someItems => [.sub .item, .sub .moreItems]
  | .lastItem => []
  | .nextItems => [.tok .newline, .sub .items]
  | .loneExpression => [.sub .optionalNewline, .sub .expression, .sub .optionalNewline]
  | .noNewline => []
  | .newline => [.tok .newline]
  | .functionItem => [.sub .functionDecl]
  | .typeItem => [.sub .typeDecl]
  | .assignmentItem => [.sub .assignment]
  | .functionDecl => [.sub .name, .tok .leftParen, .sub .optionalNames, .tok .rightParen,
      .tok .leftBrace, .tok .newline, .sub .body, .tok .rightBrace]
  | .typeDecl => [.tok .typeKeyword, .sub .name, .sub .typeParameters, .tok .leftBrace,
      .tok .newline, .sub .typeOptions, .tok .rightBrace]
  | .noTypeParameters => []
  | .typeParameters => [.tok .leftParen, .sub .optionalNames, .tok .rightParen]
  | .noNames => []
  | .someNames => [.sub .names]
  | .names => [.sub .name, .sub .moreNames]
  | .lastName => []
  | .nextNames => [.tok .comma, .sub .names]
  | .typeOptions => [.sub .typeOption, .tok .newline, .sub .moreTypeOptions]
  | .lastTypeOption => []
  | .nextTypeOptions => [.sub .typeOptions]
  | .typeOption => [.sub .name, .sub .typeArguments]
  | .noTypeArguments => []
  | .typeArguments => [.tok .leftParen, .sub .typeExprs, .tok .rightParen]
  | .typeExprs => [.sub .typeExpr, .sub .moreTypeExprs]
  | .lastTypeExpr => []
  | .nextTypeExprs => [.tok .comma, .sub .typeExprs]
  | .typeExpr => [.sub .name, .sub .typeArguments]
  | .body => [.sub .bodyLines]
  | .noLines => []
  | .trailingLine => [.sub .trailing, .tok .newline]
  | .statementLine => [.sub .statement, .tok .newline, .sub .bodyLines]
  | .assignmentStatement => [.sub .assignment]
  | .callStatement => [.sub .call]
  | .caseStatement => [.sub .caseExpr]
  | .assignment => [.sub .target, .sub .assignedValue]
  | .bindTarget => [.sub .name, .tok .equal]
  | .mutableTarget => [.tok .mutKeyword, .sub .name, .tok .equal]
  | .updateTarget => [.sub .name, .tok .colon]
  | .caseValue => [.sub .caseExpr]
  | .expressionValue => [.sub .expression]
  | .chainTrailing => [.sub .term, .sub .operator, .sub .chain]
  | .referenceTrailing => [.sub .reference]
  | .numberTrailing => [.sub .number]
  | .parenthesisedTrailing => [.tok .leftParen, .sub .expression, .tok .rightParen]
  | .caseExpr => [.tok .caseKeyword, .sub .expression, .tok .leftBrace, .sub .optionalNewline,
      .sub .caseOptions, .tok .rightBrace]
  | .caseOptions => [.sub .caseOption, .tok .newline, .sub .moreCaseOptions]
  | .lastCaseOption => []
  | .nextCaseOptions => [.sub .caseOptions]
  | .caseOption => [.sub .pattern, .tok .arrow, .sub .arm]
  | .pattern => [.sub .name, .sub .bindings]
  | .noBindings => []
  | .bindings => [.tok .leftParen, .sub .names, .tok .rightParen]
  | .expressionArm => [.sub .expression]
  | .bodyArm => [.tok .leftBrace, .sub .optionalNewline, .sub .armBody, .tok .rightBrace]
  | .armBody => [.sub .armLines]
  | .noArmLines => []
  | .trailingArmLine => [.sub .trailing, .sub .optionalNewline]
  | .statementArmLine => [.sub .statement, .sub .moreArmLines]
  | .lastArmLine => []
  | .nextArmLines => [.tok .newline, .sub .armLines]
  | .expression => [.sub .chain]
  | .chain => [.sub .term, .sub .moreChain]
  | .lastTerm => []
  | .nextTerms => [.sub .operator, .sub .chain]
  | .callTerm => [.sub .call]
  | .referenceTerm => [.sub .reference]
  | .numberTerm => [.sub .number]
  | .parenthesisedTerm => [.tok .leftParen, .sub .expression, .tok .rightParen]
  | .call => [.sub .name, .tok .leftParen, .sub .callArguments, .tok .rightParen]
  | .noArguments => []
  | .someArguments => [.sub .arguments]
  | .arguments => [.sub .expression, .sub .moreArguments]
  | .lastArgument => []
  | .nextArguments => [.tok .comma, .sub .arguments]
  | .reference => [.sub .name]
  | .unsignedNumber => [.tok .number]
  | .signedNumber => [.sub .sign, .tok .number]
  | .plusSign => [.tok .plus]
  | .minusSign => [.tok .minus]
  | .addOperator => [.tok .plus]
  | .subtractOperator => [.tok .minus]
  | .multiplyOperator => [.tok .star]
  | .divideOperator => [.tok .slash]
  | .powerOperator => [.tok .caret]
  | .moduloOperator => [.tok .percent]
  | .equalOperator => [.tok .equalEqual]
  | .notEqualOperator => [.tok .notEqual]
  | .lessEqualOperator => [.tok .lessEqual]
  | .greaterEqualOperator => [.tok .greaterEqual]
  | .lessOperator => [.tok .less]
  | .greaterOperator => [.tok .greater]
  | .identifierName => [.tok .identifier]
  | .typeName => [.tok .typeKeyword]
  | .caseName => [.tok .caseKeyword]
  | .mutName => [.tok .mutKeyword]

/-- The rules of a nonterminal. -/
def Nonterminal.rules : (x : Nonterminal) → List (Rule x)
  | .program => [.program]
  | .items => [.noItems, .someItems]
  | .moreItems => [.lastItem, .nextItems]
  | .loneExpression => [.loneExpression]
  | .optionalNewline => [.noNewline, .newline]
  | .item => [.functionItem, .typeItem, .assignmentItem]
  | .functionDecl => [.functionDecl]
  | .typeDecl => [.typeDecl]
  | .typeParameters => [.noTypeParameters, .typeParameters]
  | .optionalNames => [.noNames, .someNames]
  | .names => [.names]
  | .moreNames => [.lastName, .nextNames]
  | .typeOptions => [.typeOptions]
  | .moreTypeOptions => [.lastTypeOption, .nextTypeOptions]
  | .typeOption => [.typeOption]
  | .typeArguments => [.noTypeArguments, .typeArguments]
  | .typeExprs => [.typeExprs]
  | .moreTypeExprs => [.lastTypeExpr, .nextTypeExprs]
  | .typeExpr => [.typeExpr]
  | .body => [.body]
  | .bodyLines => [.noLines, .trailingLine, .statementLine]
  | .statement => [.assignmentStatement, .callStatement, .caseStatement]
  | .assignment => [.assignment]
  | .target => [.bindTarget, .mutableTarget, .updateTarget]
  | .assignedValue => [.caseValue, .expressionValue]
  | .trailing => [.chainTrailing, .referenceTrailing, .numberTrailing, .parenthesisedTrailing]
  | .caseExpr => [.caseExpr]
  | .caseOptions => [.caseOptions]
  | .moreCaseOptions => [.lastCaseOption, .nextCaseOptions]
  | .caseOption => [.caseOption]
  | .pattern => [.pattern]
  | .bindings => [.noBindings, .bindings]
  | .arm => [.expressionArm, .bodyArm]
  | .armBody => [.armBody]
  | .armLines => [.noArmLines, .trailingArmLine, .statementArmLine]
  | .moreArmLines => [.lastArmLine, .nextArmLines]
  | .expression => [.expression]
  | .chain => [.chain]
  | .moreChain => [.lastTerm, .nextTerms]
  | .term => [.callTerm, .referenceTerm, .numberTerm, .parenthesisedTerm]
  | .call => [.call]
  | .callArguments => [.noArguments, .someArguments]
  | .arguments => [.arguments]
  | .moreArguments => [.lastArgument, .nextArguments]
  | .reference => [.reference]
  | .number => [.unsignedNumber, .signedNumber]
  | .sign => [.plusSign, .minusSign]
  | .operator => [.addOperator, .subtractOperator, .multiplyOperator, .divideOperator,
      .powerOperator, .moduloOperator, .equalOperator, .notEqualOperator, .lessEqualOperator,
      .greaterEqualOperator, .lessOperator, .greaterOperator]
  | .name => [.identifierName, .typeName, .caseName, .mutName]

/-- The rules of a nonterminal are all listed. -/
theorem Rule.mem_rules {x : Nonterminal} (r : Rule x) : r ∈ x.rules := by
  cases r <;> simp [Nonterminal.rules]

end Spruce
