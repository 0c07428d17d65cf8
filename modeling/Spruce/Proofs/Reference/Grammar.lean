import Spruce.Token.Lexer

set_option autoImplicit false

/-!
# The reference grammar

The grammar of the language as its reference states it: one pattern for each construct, with
choices, parts that may be left out and repetitions, and nothing arranged for the sake of reading.

An optional part is marked if its absence leaves a trace where the rest of the construct is put
together. The three forms of a target are constructs of their own. Whitespace between tokens is no
part of the grammar.

Main definitions: `Construct`, `Pattern`, the rules `Construct.pattern`, and `Phrase`, the trees
that show how tokens follow a pattern, with every choice and every turn of a repetition.
-/

namespace Spruce.Reference

/-! ## Patterns -/

/-- What the reference grammar has rules for. -/
inductive Construct where
  | program
  | loneExpression
  | item
  | functionDeclaration
  | typeDeclaration
  | typeParameters
  | typeOption
  | typeExpression
  | typeExpressions
  | names
  | body
  | statement
  | assignment
  | target
  | mutableBind
  | update
  | bind
  | valued
  | trailingExpression
  | caseExpression
  | caseOption
  | armBody
  | inlineBody
  | casePattern
  | expression
  | term
  | functionCall
  | arguments
  | reference
  | number
  | sign
  | operator
  | name
  deriving DecidableEq, Repr

/-- Patterns of tokens. -/
inductive Pattern where
  | token (t : Terminal)
  | construct (c : Construct)
  | both (first second : Pattern)
  | either (left right : Pattern)
  /-- A part that may be left out; if it is marked, leaving it out leaves a trace. -/
  | optional (marked : Bool) (p : Pattern)
  | many (p : Pattern)
  deriving DecidableEq, Repr

namespace Pattern

/-- Patterns one after another. -/
def sequence (p : Pattern) : List Pattern → Pattern
  | [] => p
  | q :: qs => .both p (sequence q qs)

/-- One of some patterns. -/
def choice (p : Pattern) : List Pattern → Pattern
  | [] => p
  | q :: qs => .either p (choice q qs)

/-- A pattern once or more. -/
def oneOrMore (p : Pattern) : Pattern := .both p (.many p)

/-- A pattern that may be left out without a trace. -/
def perhaps (p : Pattern) : Pattern := .optional false p

/-- A pattern that may be left out with a trace. -/
def marked (p : Pattern) : Pattern := .optional true p

/-- A pattern once or more, with commas between. -/
def listed (p : Pattern) : Pattern := .both p (.many (.both (.token .comma) p))

/-- A pattern and the newline after it. -/
def line (p : Pattern) : Pattern := .both p (.token .newline)

end Pattern

open Pattern in
/-- The rules of the reference grammar. -/
def Construct.pattern : Construct → Pattern
  -- Top level
  | program =>
      sequence (perhaps (.token .newline))
        [many (line (.construct item)), perhaps (.construct item)]
  | loneExpression =>
      sequence (perhaps (.token .newline)) [.construct expression, perhaps (.token .newline)]
  | item =>
      choice (.construct functionDeclaration) [.construct typeDeclaration, .construct assignment]
  -- Declarations
  | functionDeclaration =>
      sequence (.construct name) [.token .leftParen, marked (.construct names), .token .rightParen,
        .token .leftBrace, .token .newline, .construct body, .token .rightBrace]
  | typeDeclaration =>
      sequence (.token .typeKeyword) [.construct name, marked (.construct typeParameters),
        .token .leftBrace, .token .newline, oneOrMore (line (.construct typeOption)),
        .token .rightBrace]
  | typeParameters =>
      sequence (.token .leftParen) [marked (.construct names), .token .rightParen]
  | typeOption | typeExpression =>
      sequence (.construct name)
        [marked (sequence (.token .leftParen) [.construct typeExpressions, .token .rightParen])]
  | typeExpressions => listed (.construct typeExpression)
  | names => listed (.construct name)
  -- Statements and bodies
  | body =>
      sequence (many (line (.construct statement))) [marked (line (.construct trailingExpression))]
  | statement =>
      choice (.construct assignment) [.construct functionCall, .construct caseExpression]
  | assignment => sequence (.construct target) [.construct valued]
  | target => choice (.construct mutableBind) [.construct update, .construct bind]
  | mutableBind => sequence (.token .mutKeyword) [.construct name, .token .equal]
  | update => sequence (.construct name) [.token .colon]
  | bind => sequence (.construct name) [.token .equal]
  | valued => choice (.construct caseExpression) [.construct expression]
  | trailingExpression =>
      choice
        (sequence (.construct term) [oneOrMore (sequence (.construct operator) [.construct term])])
        [.construct reference, .construct number,
          sequence (.token .leftParen) [.construct expression, .token .rightParen]]
  -- Case constructs
  | caseExpression =>
      sequence (.token .caseKeyword) [.construct expression, .token .leftBrace,
        perhaps (.token .newline), oneOrMore (line (.construct caseOption)), .token .rightBrace]
  | caseOption =>
      sequence (.construct casePattern)
        [.token .arrow, choice (.construct expression) [.construct armBody]]
  | armBody =>
      sequence (.token .leftBrace) [perhaps (.token .newline),
        choice (.construct body) [.construct inlineBody], .token .rightBrace]
  | inlineBody =>
      sequence (many (line (.construct statement)))
        [choice (.construct statement) [.construct trailingExpression]]
  | casePattern =>
      sequence (.construct name)
        [marked (sequence (.token .leftParen) [.construct names, .token .rightParen])]
  -- Expressions
  | expression =>
      sequence (.construct term) [many (sequence (.construct operator) [.construct term])]
  | term =>
      choice (.construct functionCall) [.construct reference, .construct number,
        sequence (.token .leftParen) [.construct expression, .token .rightParen]]
  | functionCall =>
      sequence (.construct name)
        [.token .leftParen, marked (.construct arguments), .token .rightParen]
  | arguments => listed (.construct expression)
  | reference => .construct name
  | number => sequence (marked (.construct sign)) [.token .number]
  | sign => choice (.token .plus) [.token .minus]
  | operator =>
      choice (.token .plus) [.token .minus, .token .star, .token .slash, .token .caret,
        .token .percent, .token .equalEqual, .token .notEqual, .token .lessEqual,
        .token .greaterEqual, .token .less, .token .greater]
  -- Keywords are names wherever the grammar does not expect the keyword.
  | name =>
      choice (.token .identifier) [.token .typeKeyword, .token .caseKeyword, .token .mutKeyword]

/-! ## Phrases -/

/-- The ways in which tokens follow a pattern. -/
inductive Phrase : Pattern → Type where
  | token (t : Terminal) (token : Token) (kind_eq : token.kind = t) : Phrase (.token t)
  | construct (c : Construct) (phrase : Phrase c.pattern) : Phrase (.construct c)
  | both {p q : Pattern} (first : Phrase p) (second : Phrase q) : Phrase (.both p q)
  | left {p q : Pattern} (phrase : Phrase p) : Phrase (.either p q)
  | right {p q : Pattern} (phrase : Phrase q) : Phrase (.either p q)
  | absent {marked : Bool} {p : Pattern} : Phrase (.optional marked p)
  | present {marked : Bool} {p : Pattern} (phrase : Phrase p) : Phrase (.optional marked p)
  | done {p : Pattern} : Phrase (.many p)
  | more {p : Pattern} (first : Phrase p) (later : Phrase (.many p)) : Phrase (.many p)

namespace Phrase

/-- The tokens of a phrase, from left to right. -/
def tokens : {p : Pattern} → Phrase p → List Token
  | _, .token _ t _ => [t]
  | _, .construct _ phrase => phrase.tokens
  | _, .both first second => first.tokens ++ second.tokens
  | _, .left phrase => phrase.tokens
  | _, .right phrase => phrase.tokens
  | _, .absent => []
  | _, .present phrase => phrase.tokens
  | _, .done => []
  | _, .more first later => first.tokens ++ later.tokens

/-- The sign of a number, if there is one and it does not end where the digits start. -/
def detachedSign : List Token → List Token
  | [sign, digits] => if sign.stop = digits.start.offset then [] else [sign]
  | _ => []

/-- The signs of numbers that do not end where the digits start, from left to right. -/
def detachedSigns : {p : Pattern} → Phrase p → List Token
  | _, .token _ _ _ => []
  | _, .construct .number phrase => detachedSign phrase.tokens
  | _, .construct _ phrase => phrase.detachedSigns
  | _, .both first second => first.detachedSigns ++ second.detachedSigns
  | _, .left phrase => phrase.detachedSigns
  | _, .right phrase => phrase.detachedSigns
  | _, .absent => []
  | _, .present phrase => phrase.detachedSigns
  | _, .done => []
  | _, .more first later => first.detachedSigns ++ later.detachedSigns

end Phrase

end Spruce.Reference
