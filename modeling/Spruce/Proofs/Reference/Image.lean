import Spruce.Grammar.Derivation
import Spruce.Proofs.Reference.Grammar

set_option autoImplicit false

/-!
# Derivations as phrases

The grammar that texts are read by is arranged so that few ways to go on have to be kept in mind.
Each of its nonterminals stands for a construct of the reference grammar or for a part of one, and
each derivation for a phrase (`Derivation.phrase`) with the same tokens
(`Derivation.phrase_tokens`).

Whatever is listed along a phrase, tokens or something of its numbers, is the same as along the
phrases of the parts (`ruleImage_collect`). Where reading goes on with what a list or a body still
has to come, the phrase of the whole is put together from the right (`itemsPhrase`, `bodyPhrase`,
`armPhrase`).
-/

namespace Spruce

open Reference

/-! ## Nonterminals as patterns -/

/-- Items with newlines between them, and perhaps after the last. -/
def itemsPattern : Pattern := .both (.many (.line (.construct .item))) (.perhaps (.construct .item))

/-- What stands between the braces of an arm. -/
def armLinesPattern : Pattern :=
  .either (Construct.pattern .body) (Construct.pattern .inlineBody)

/-- What a nonterminal stands for in the reference grammar. -/
def Nonterminal.image : Nonterminal → Pattern
  | .program => .construct .program
  | .items => itemsPattern
  | .moreItems => .perhaps (.both (.token .newline) itemsPattern)
  | .loneExpression => .construct .loneExpression
  | .optionalNewline => .perhaps (.token .newline)
  | .item => .construct .item
  | .functionDecl => .construct .functionDeclaration
  | .typeDecl => .construct .typeDeclaration
  | .typeParameters => .marked (.construct .typeParameters)
  | .optionalNames => .marked (.construct .names)
  | .names => .construct .names
  | .moreNames => .many (.both (.token .comma) (.construct .name))
  | .typeOptions => .oneOrMore (.line (.construct .typeOption))
  | .moreTypeOptions => .many (.line (.construct .typeOption))
  | .typeOption => .construct .typeOption
  | .typeArguments =>
      .marked (.sequence (.token .leftParen) [.construct .typeExpressions, .token .rightParen])
  | .typeExprs => .construct .typeExpressions
  | .moreTypeExprs => .many (.both (.token .comma) (.construct .typeExpression))
  | .typeExpr => .construct .typeExpression
  | .body => .construct .body
  | .bodyLines => Construct.pattern .body
  | .statement => .construct .statement
  | .assignment => .construct .assignment
  | .target => .construct .target
  | .assignedValue => .construct .valued
  | .trailing => .construct .trailingExpression
  | .caseExpr => .construct .caseExpression
  | .caseOptions => .oneOrMore (.line (.construct .caseOption))
  | .moreCaseOptions => .many (.line (.construct .caseOption))
  | .caseOption => .construct .caseOption
  | .pattern => .construct .casePattern
  | .bindings => .marked (.sequence (.token .leftParen) [.construct .names, .token .rightParen])
  | .arm => .choice (.construct .expression) [.construct .armBody]
  | .armBody => .choice (.construct .body) [.construct .inlineBody]
  | .armLines => armLinesPattern
  | .moreArmLines => .perhaps (.both (.token .newline) armLinesPattern)
  | .expression => .construct .expression
  | .chain => Construct.pattern .expression
  | .moreChain => .many (.sequence (.construct .operator) [.construct .term])
  | .term => .construct .term
  | .call => .construct .functionCall
  | .callArguments => .marked (.construct .arguments)
  | .arguments => .construct .arguments
  | .moreArguments => .many (.both (.token .comma) (.construct .expression))
  | .reference => .construct .reference
  | .number => .construct .number
  | .sign => .construct .sign
  | .operator => .construct .operator
  | .name => .construct .name

/-- What a symbol stands for in the reference grammar. -/
def Symbol.image : Symbol → Pattern
  | .tok t => .token t
  | .sub x => x.image

/-- Phrases of some symbols, one after another. -/
def Images : List Symbol → Type
  | [] => Unit
  | s :: ss => Phrase s.image × Images ss

/-! ## Phrases from the right -/

/-- The phrase of items, given the first and what comes after it. -/
def itemsPhrase (item : Phrase (.construct .item)) :
    Phrase (Nonterminal.image .moreItems) → Phrase itemsPattern
  | .absent => .both .done (.present item)
  | .present (.both newline (.both lines last)) => .both (.more (.both item newline) lines) last

/-- The phrase of the lines of a function body, given the first line. -/
def bodyPhrase (statement : Phrase (.construct .statement)) (newline : Phrase (.token .newline)) :
    Phrase (Construct.pattern .body) → Phrase (Construct.pattern .body)
  | .both lines trailing => .both (.more (.both statement newline) lines) trailing

/-- The phrase of the lines of an arm body, given the first statement and what comes after it. -/
def armPhrase (statement : Phrase (.construct .statement)) :
    Phrase (Nonterminal.image .moreArmLines) → Phrase armLinesPattern
  | .absent => .right (.both .done (.left statement))
  | .present (.both newline (.left (.both lines trailing))) =>
      .left (.both (.more (.both statement newline) lines) trailing)
  | .present (.both newline (.right (.both lines last))) =>
      .right (.both (.more (.both statement newline) lines) last)

/-- The phrase of the lines of an arm body that are an expression, ended by a newline or not. -/
def trailingArmPhrase (trailing : Phrase (.construct .trailingExpression)) :
    Phrase (.perhaps (.token .newline)) → Phrase armLinesPattern
  | .absent => .right (.both .done (.right trailing))
  | .present newline => .left (.both .done (.present (.both trailing newline)))

/-- The phrase of a body in braces. -/
def armBodyPhrase : Phrase armLinesPattern → Phrase (Nonterminal.image .armBody)
  | .left lines => .left (.construct .body lines)
  | .right lines => .right (.construct .inlineBody lines)

/-- What a construct is made of. -/
def Reference.Phrase.inner {c : Construct} : Phrase (.construct c) → Phrase c.pattern
  | .construct _ phrase => phrase

/-- What a list goes on with, given a comma and the list after it. -/
def nextListed {p : Pattern} (comma : Phrase (.token .comma)) :
    Phrase (.listed p) → Phrase (.many (.both (.token .comma) p))
  | .both first later => .more (.both comma first) later

/-- A line at least, as any number of lines. -/
def manyOfOneOrMore {p : Pattern} : Phrase (.oneOrMore p) → Phrase (.many p)
  | .both first later => .more first later

/-- What a chain goes on with, given an operator and the chain after it. -/
def nextTerms (operator : Phrase (.construct .operator)) :
    Phrase (Construct.pattern .expression) → Phrase (Nonterminal.image .moreChain)
  | .both term later => .more (.both operator term) later

/-- The phrase of a term, an operator and a chain. -/
def chainPhrase (term : Phrase (.construct .term)) (operator : Phrase (.construct .operator)) :
    Phrase (Construct.pattern .expression) → Phrase (.construct .trailingExpression)
  | .both second later =>
      .construct .trailingExpression (.left (.both term (.both (.both operator second) later)))

/-! ## Images of derivations -/

/-- The phrase that a rule makes of the phrases of its parts. -/
def ruleImage : {x : Nonterminal} → (rule : Rule x) → Images rule.parts → Phrase x.image
  | _, .program, (newline, items, _) => .construct .program (.both newline items)
  | _, .noItems, _ => .both .done .absent
  | _, .someItems, (item, more, _) => itemsPhrase item more
  | _, .lastItem, _ => .absent
  | _, .nextItems, (newline, items, _) => .present (.both newline items)
  | _, .loneExpression, (before, expression, after, _) =>
      .construct .loneExpression (.both before (.both expression after))
  | _, .noNewline, _ => .absent
  | _, .newline, (newline, _) => .present newline
  | _, .functionItem, (item, _) => .construct .item (.left item)
  | _, .typeItem, (item, _) => .construct .item (.right (.left item))
  | _, .assignmentItem, (item, _) => .construct .item (.right (.right item))
  | _, .functionDecl, (name, opening, names, closing, brace, newline, body, brace', _) =>
      .construct .functionDeclaration (.both name (.both opening (.both names (.both closing
        (.both brace (.both newline (.both body brace')))))))
  | _, .typeDecl, (keyword, name, parameters, brace, newline, options, brace', _) =>
      .construct .typeDeclaration (.both keyword (.both name (.both parameters (.both brace
        (.both newline (.both options brace'))))))
  | _, .noTypeParameters, _ => .absent
  | _, .typeParameters, (opening, names, closing, _) =>
      .present (.construct .typeParameters (.both opening (.both names closing)))
  | _, .noNames, _ => .absent
  | _, .someNames, (names, _) => .present names
  | _, .names, (name, more, _) => .construct .names (.both name more)
  | _, .lastName, _ => .done
  | _, .nextNames, (comma, names, _) => nextListed comma names.inner
  | _, .typeOptions, (option, newline, more, _) => .both (.both option newline) more
  | _, .lastTypeOption, _ => .done
  | _, .nextTypeOptions, (options, _) => manyOfOneOrMore options
  | _, .typeOption, (name, arguments, _) => .construct .typeOption (.both name arguments)
  | _, .noTypeArguments, _ => .absent
  | _, .typeArguments, (opening, arguments, closing, _) =>
      .present (.both opening (.both arguments closing))
  | _, .typeExprs, (argument, more, _) => .construct .typeExpressions (.both argument more)
  | _, .lastTypeExpr, _ => .done
  | _, .nextTypeExprs, (comma, arguments, _) => nextListed comma arguments.inner
  | _, .typeExpr, (name, arguments, _) => .construct .typeExpression (.both name arguments)
  | _, .body, (lines, _) => .construct .body lines
  | _, .noLines, _ => .both .done .absent
  | _, .trailingLine, (trailing, newline, _) => .both .done (.present (.both trailing newline))
  | _, .statementLine, (statement, newline, lines, _) => bodyPhrase statement newline lines
  | _, .assignmentStatement, (statement, _) => .construct .statement (.left statement)
  | _, .callStatement, (statement, _) => .construct .statement (.right (.left statement))
  | _, .caseStatement, (statement, _) => .construct .statement (.right (.right statement))
  | _, .assignment, (target, value, _) => .construct .assignment (.both target value)
  | _, .bindTarget, (name, sign, _) =>
      .construct .target (.right (.right (.construct .bind (.both name sign))))
  | _, .mutableTarget, (keyword, name, sign, _) =>
      .construct .target (.left (.construct .mutableBind (.both keyword (.both name sign))))
  | _, .updateTarget, (name, sign, _) =>
      .construct .target (.right (.left (.construct .update (.both name sign))))
  | _, .caseValue, (value, _) => .construct .valued (.left value)
  | _, .expressionValue, (value, _) => .construct .valued (.right value)
  | _, .chainTrailing, (term, operator, chain, _) => chainPhrase term operator chain
  | _, .referenceTrailing, (reference, _) =>
      .construct .trailingExpression (.right (.left reference))
  | _, .numberTrailing, (number, _) =>
      .construct .trailingExpression (.right (.right (.left number)))
  | _, .parenthesisedTrailing, (opening, expression, closing, _) =>
      .construct .trailingExpression
        (.right (.right (.right (.both opening (.both expression closing)))))
  | _, .caseExpr, (keyword, scrutinee, brace, newline, options, brace', _) =>
      .construct .caseExpression (.both keyword (.both scrutinee (.both brace (.both newline
        (.both options brace')))))
  | _, .caseOptions, (option, newline, more, _) => .both (.both option newline) more
  | _, .lastCaseOption, _ => .done
  | _, .nextCaseOptions, (options, _) => manyOfOneOrMore options
  | _, .caseOption, (pattern, arrow, arm, _) =>
      .construct .caseOption (.both pattern (.both arrow arm))
  | _, .pattern, (name, bindings, _) => .construct .casePattern (.both name bindings)
  | _, .noBindings, _ => .absent
  | _, .bindings, (opening, names, closing, _) => .present (.both opening (.both names closing))
  | _, .expressionArm, (expression, _) => .left expression
  | _, .bodyArm, (brace, newline, body, brace', _) =>
      .right (.construct .armBody (.both brace (.both newline (.both body brace'))))
  | _, .armBody, (lines, _) => armBodyPhrase lines
  | _, .noArmLines, _ => .left (.both .done .absent)
  | _, .trailingArmLine, (trailing, newline, _) => trailingArmPhrase trailing newline
  | _, .statementArmLine, (statement, more, _) => armPhrase statement more
  | _, .lastArmLine, _ => .absent
  | _, .nextArmLines, (newline, lines, _) => .present (.both newline lines)
  | _, .expression, (chain, _) => .construct .expression chain
  | _, .chain, (term, more, _) => .both term more
  | _, .lastTerm, _ => .done
  | _, .nextTerms, (operator, chain, _) => nextTerms operator chain
  | _, .callTerm, (term, _) => .construct .term (.left term)
  | _, .referenceTerm, (term, _) => .construct .term (.right (.left term))
  | _, .numberTerm, (term, _) => .construct .term (.right (.right (.left term)))
  | _, .parenthesisedTerm, (opening, expression, closing, _) =>
      .construct .term (.right (.right (.right (.both opening (.both expression closing)))))
  | _, .call, (name, opening, arguments, closing, _) =>
      .construct .functionCall (.both name (.both opening (.both arguments closing)))
  | _, .noArguments, _ => .absent
  | _, .someArguments, (arguments, _) => .present arguments
  | _, .arguments, (argument, more, _) => .construct .arguments (.both argument more)
  | _, .lastArgument, _ => .done
  | _, .nextArguments, (comma, arguments, _) => nextListed comma arguments.inner
  | _, .reference, (name, _) => .construct .reference name
  | _, .unsignedNumber, (number, _) => .construct .number (.both .absent number)
  | _, .signedNumber, (sign, number, _) => .construct .number (.both (.present sign) number)
  | _, .plusSign, (token, _) => .construct .sign (.left token)
  | _, .minusSign, (token, _) => .construct .sign (.right token)
  | _, .addOperator, (token, _) => .construct .operator (.left token)
  | _, .subtractOperator, (token, _) => .construct .operator (.right (.left token))
  | _, .multiplyOperator, (token, _) => .construct .operator (.right (.right (.left token)))
  | _, .divideOperator, (token, _) => .construct .operator (.right (.right (.right (.left token))))
  | _, .powerOperator, (token, _) =>
      .construct .operator (.right (.right (.right (.right (.left token)))))
  | _, .moduloOperator, (token, _) =>
      .construct .operator (.right (.right (.right (.right (.right (.left token))))))
  | _, .equalOperator, (token, _) =>
      .construct .operator (.right (.right (.right (.right (.right (.right (.left token)))))))
  | _, .notEqualOperator, (token, _) =>
      .construct .operator
        (.right (.right (.right (.right (.right (.right (.right (.left token))))))))
  | _, .lessEqualOperator, (token, _) =>
      .construct .operator
        (.right (.right (.right (.right (.right (.right (.right (.right (.left token)))))))))
  | _, .greaterEqualOperator, (token, _) =>
      .construct .operator (.right (.right (.right (.right (.right (.right (.right (.right
        (.right (.left token))))))))))
  | _, .lessOperator, (token, _) =>
      .construct .operator (.right (.right (.right (.right (.right (.right (.right (.right
        (.right (.right (.left token)))))))))))
  | _, .greaterOperator, (token, _) =>
      .construct .operator (.right (.right (.right (.right (.right (.right (.right (.right
        (.right (.right (.right token)))))))))))
  | _, .identifierName, (token, _) => .construct .name (.left token)
  | _, .typeName, (token, _) => .construct .name (.right (.left token))
  | _, .caseName, (token, _) => .construct .name (.right (.right (.left token)))
  | _, .mutName, (token, _) => .construct .name (.right (.right (.right token)))

mutual

/-- The phrase of a derivation. -/
def Derivation.phrase : {s : Symbol} → Derivation s → Phrase s.image
  | _, .token t token kind_eq => .token t token kind_eq
  | _, .node rule parts => ruleImage rule parts.phrases

/-- The phrases of some derivations. -/
def Derivations.phrases : {ss : List Symbol} → Derivations ss → Images ss
  | _, .nil => ()
  | _, .cons first rest => (first.phrase, rest.phrases)

end

/-! ## Lists along phrases -/

/-- A list along a phrase, from left to right: what each token adds, except that a number may add
something as a whole. -/
def Reference.Phrase.collect {α : Type} (leaf : Token → List α)
    (whole : Phrase (Construct.pattern .number) → Option (List α)) :
    {p : Pattern} → Phrase p → List α
  | _, .token _ t _ => leaf t
  | _, .construct .number phrase => (whole phrase).getD (phrase.collect leaf whole)
  | _, .construct _ phrase => phrase.collect leaf whole
  | _, .both first second => first.collect leaf whole ++ second.collect leaf whole
  | _, .left phrase => phrase.collect leaf whole
  | _, .right phrase => phrase.collect leaf whole
  | _, .absent => []
  | _, .present phrase => phrase.collect leaf whole
  | _, .done => []
  | _, .more first later => first.collect leaf whole ++ later.collect leaf whole

/-- A list along some phrases, one after another. -/
def Images.collect {α : Type} (leaf : Token → List α)
    (whole : Phrase (Construct.pattern .number) → Option (List α)) :
    {ss : List Symbol} → Images ss → List α
  | [], _ => []
  | [_], (only, _) => only.collect leaf whole
  | _ :: _ :: _, (first, later) => first.collect leaf whole ++ collect leaf whole later

section

variable {α : Type} {leaf : Token → List α}
  {whole : Phrase (Construct.pattern .number) → Option (List α)}

theorem itemsPhrase_collect (item : Phrase (.construct .item))
    (more : Phrase (Nonterminal.image .moreItems)) :
    (itemsPhrase item more).collect leaf whole =
      item.collect leaf whole ++ more.collect leaf whole := by
  match more with
  | .absent => exact (List.append_nil _).symm
  | .present (.both newline (.both lines last)) =>
      show ((_ ++ _) ++ _) ++ _ = _ ++ (_ ++ (_ ++ _))
      rw [List.append_assoc, List.append_assoc]

theorem bodyPhrase_collect (statement : Phrase (.construct .statement))
    (newline : Phrase (.token .newline)) (lines : Phrase (Construct.pattern .body)) :
    (bodyPhrase statement newline lines).collect leaf whole =
      statement.collect leaf whole ++ (newline.collect leaf whole ++ lines.collect leaf whole) := by
  match lines with
  | .both lines trailing =>
      show ((_ ++ _) ++ _) ++ _ = _ ++ (_ ++ (_ ++ _))
      rw [List.append_assoc, List.append_assoc]

theorem armPhrase_collect (statement : Phrase (.construct .statement))
    (more : Phrase (Nonterminal.image .moreArmLines)) :
    (armPhrase statement more).collect leaf whole =
      statement.collect leaf whole ++ more.collect leaf whole := by
  match more with
  | .absent => exact (List.append_nil _).symm
  | .present (.both newline (.left (.both lines last))) =>
      show ((_ ++ _) ++ _) ++ _ = _ ++ (_ ++ (_ ++ _))
      rw [List.append_assoc, List.append_assoc]
  | .present (.both newline (.right (.both lines last))) =>
      show ((_ ++ _) ++ _) ++ _ = _ ++ (_ ++ (_ ++ _))
      rw [List.append_assoc, List.append_assoc]

theorem trailingArmPhrase_collect (trailing : Phrase (.construct .trailingExpression))
    (newline : Phrase (.perhaps (.token .newline))) :
    (trailingArmPhrase trailing newline).collect leaf whole =
      trailing.collect leaf whole ++ newline.collect leaf whole := by
  match newline with
  | .absent => exact (List.append_nil _).symm
  | .present newline => rfl

theorem armBodyPhrase_collect (lines : Phrase armLinesPattern) :
    (armBodyPhrase lines).collect leaf whole = lines.collect leaf whole := by
  match lines with
  | .left lines => rfl
  | .right lines => rfl

theorem nextListed_collect {p : Pattern} (comma : Phrase (.token .comma))
    (list : Phrase (.listed p)) :
    (nextListed comma list).collect leaf whole =
      comma.collect leaf whole ++ list.collect leaf whole := by
  match list with
  | .both first later => exact List.append_assoc _ _ _

theorem manyOfOneOrMore_collect {p : Pattern} (lines : Phrase (.oneOrMore p)) :
    (manyOfOneOrMore lines).collect leaf whole = lines.collect leaf whole := by
  match lines with
  | .both first later => rfl

theorem nextTerms_collect (operator : Phrase (.construct .operator))
    (chain : Phrase (Construct.pattern .expression)) :
    (nextTerms operator chain).collect leaf whole =
      operator.collect leaf whole ++ chain.collect leaf whole := by
  match chain with
  | .both term later => exact List.append_assoc _ _ _

theorem chainPhrase_collect (term : Phrase (.construct .term))
    (operator : Phrase (.construct .operator)) (chain : Phrase (Construct.pattern .expression)) :
    (chainPhrase term operator chain).collect leaf whole =
      term.collect leaf whole ++ (operator.collect leaf whole ++ chain.collect leaf whole) := by
  match chain with
  | .both second later =>
      exact congrArg (term.collect leaf whole ++ ·) (List.append_assoc _ _ _)

/-- The phrase that a rule makes adds what its parts do, unless it is a number. -/
theorem ruleImage_collect {x : Nonterminal} (hx : x ≠ .number) (rule : Rule x)
    (images : Images rule.parts) :
    (ruleImage rule images).collect leaf whole = images.collect leaf whole := by
  cases rule with
  | someItems => exact itemsPhrase_collect images.1 images.2.1
  | nextNames =>
      match images with
      | (comma, .construct _ names, _) => exact nextListed_collect comma names
  | nextTypeExprs =>
      match images with
      | (comma, .construct _ arguments, _) => exact nextListed_collect comma arguments
  | nextArguments =>
      match images with
      | (comma, .construct _ arguments, _) => exact nextListed_collect comma arguments
  | typeOptions | caseOptions => exact List.append_assoc _ _ _
  | nextTypeOptions | nextCaseOptions => exact manyOfOneOrMore_collect images.1
  | statementLine => exact bodyPhrase_collect images.1 images.2.1 images.2.2.1
  | chainTrailing => exact chainPhrase_collect images.1 images.2.1 images.2.2.1
  | armBody => exact armBodyPhrase_collect images.1
  | trailingArmLine => exact trailingArmPhrase_collect images.1 images.2.1
  | statementArmLine => exact armPhrase_collect images.1 images.2.1
  | nextTerms => exact nextTerms_collect images.1 images.2.1
  | unsignedNumber | signedNumber => exact absurd rfl hx
  | _ => rfl

end

/-! ## Tokens -/

theorem Reference.Phrase.tokens_eq_collect {p : Pattern} (phrase : Phrase p) :
    phrase.tokens = phrase.collect (fun t => [t]) fun _ => none := by
  induction phrase with
  | token t token kind_eq => rfl
  | construct c phrase ih => cases c <;> exact ih
  | both first second ihFirst ihSecond => rw [tokens, collect, ihFirst, ihSecond]
  | left phrase ih => exact ih
  | right phrase ih => exact ih
  | absent => rfl
  | present phrase ih => exact ih
  | done => rfl
  | more first later ihFirst ihLater => rw [tokens, collect, ihFirst, ihLater]

/-- The tokens of some phrases, from left to right. -/
def Images.tokens {ss : List Symbol} (images : Images ss) : List Token :=
  images.collect (fun t => [t]) fun _ => none

/-- The phrase that a rule makes has the tokens of its parts. -/
theorem ruleImage_tokens {x : Nonterminal} (rule : Rule x) (images : Images rule.parts) :
    (ruleImage rule images).tokens = images.tokens := by
  rw [Phrase.tokens_eq_collect]
  -- a number adds its own tokens too, but `ruleImage_collect` leaves it out
  by_cases hx : x = .number
  · subst hx
    cases rule <;> rfl
  · exact ruleImage_collect hx rule images

mutual

/-- The phrase of a derivation has its tokens. -/
theorem Derivation.phrase_tokens : {s : Symbol} → (d : Derivation s) → d.phrase.tokens = d.tokens
  | _, .token _ _ _ => rfl
  | _, .node rule parts => (ruleImage_tokens rule parts.phrases).trans parts.phrases_tokens

/-- The phrases of some derivations have their tokens. -/
theorem Derivations.phrases_tokens : {ss : List Symbol} → (ds : Derivations ss) →
    ds.phrases.tokens = ds.tokens
  | _, .nil => rfl
  | _, .cons first .nil => by
      rw [Derivations.tokens, Derivations.tokens, List.append_nil, ← first.phrase_tokens,
        Phrase.tokens_eq_collect]
      rfl
  | _, .cons first (.cons second later) => by
      have hlater := (Derivations.cons second later).phrases_tokens
      rw [Derivations.tokens, ← hlater, ← first.phrase_tokens, Phrase.tokens_eq_collect]
      rfl

end

end Spruce
