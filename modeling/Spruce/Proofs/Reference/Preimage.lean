import Spruce.Grammar.Reading
import Spruce.Proofs.Reference.Image

set_option autoImplicit false

/-!
# Phrases as derivations

Every phrase of what a nonterminal stands for is the phrase of a derivation
(`Derivation.exists_phrase_eq`). A rule can be found for its outermost part (`exists_ruleImage_eq`),
which leaves phrases of the parts of the rule. These have fewer tokens, or as many and a
nonterminal of lower rank, since whatever has no tokens is nullable.
-/

namespace Spruce

open Reference

/-! ## Phrases without tokens -/

/-- A construct that may have no tokens. -/
def Reference.Construct.isNullable : Construct → Bool
  | .program | .body => true
  | _ => false

/-- A pattern that the empty sequence of tokens may follow. -/
def Reference.Pattern.isNullable : Pattern → Bool
  | .token _ => false
  | .construct c => c.isNullable
  | .both p q => p.isNullable && q.isNullable
  | .either p q => p.isNullable || q.isNullable
  | .optional _ _ | .many _ => true

theorem Reference.Construct.isNullable_pattern (c : Construct) :
    c.pattern.isNullable = c.isNullable := by
  cases c <;> rfl

theorem Nonterminal.isNullable_image (x : Nonterminal) : x.image.isNullable = x.isNullable := by
  cases x <;> rfl

/-- Only a nullable pattern has a phrase without tokens. -/
theorem Reference.Phrase.isNullable_of_tokens {p : Pattern} (phrase : Phrase p)
    (h : phrase.tokens = []) : p.isNullable := by
  induction phrase with
  | token t token kind_eq => exact absurd h (List.cons_ne_nil _ _)
  | construct c phrase ih => exact c.isNullable_pattern.symm.trans (ih h)
  | both first second ihFirst ihSecond =>
      obtain ⟨hfirst, hsecond⟩ := List.append_eq_nil_iff.1 h
      simp only [Pattern.isNullable, ihFirst hfirst, ihSecond hsecond, Bool.and_self]
  | left phrase ih => simp only [Pattern.isNullable, ih h, Bool.true_or]
  | right phrase ih => simp only [Pattern.isNullable, ih h, Bool.or_true]
  | absent => rfl
  | present phrase ih => rfl
  | done => rfl
  | more first later ihFirst ihLater => rfl

theorem Images.length_tokens_cons {s : Symbol} {ss : List Symbol} (images : Images (s :: ss)) :
    images.tokens.length = images.1.tokens.length + (Images.tokens images.2).length := by
  rw [Phrase.tokens_eq_collect]
  match ss, images with
  | [], _ => rfl
  | _ :: _, _ => exact List.length_append

/-! ## Rules for phrases -/

/-- Every phrase of an operator is made by the rule of its token. -/
theorem exists_operatorRule : (phrase : Phrase (Construct.pattern .operator)) →
    ∃ (rule : Rule .operator) (images : Images rule.parts),
      ruleImage rule images = .construct .operator phrase
  | .left token => ⟨.addOperator, (token, ()), rfl⟩
  | .right (.left token) => ⟨.subtractOperator, (token, ()), rfl⟩
  | .right (.right (.left token)) => ⟨.multiplyOperator, (token, ()), rfl⟩
  | .right (.right (.right (.left token))) => ⟨.divideOperator, (token, ()), rfl⟩
  | .right (.right (.right (.right (.left token)))) => ⟨.powerOperator, (token, ()), rfl⟩
  | .right (.right (.right (.right (.right (.left token))))) => ⟨.moduloOperator, (token, ()), rfl⟩
  | .right (.right (.right (.right (.right (.right (.left token)))))) =>
      ⟨.equalOperator, (token, ()), rfl⟩
  | .right (.right (.right (.right (.right (.right (.right (.left token))))))) =>
      ⟨.notEqualOperator, (token, ()), rfl⟩
  | .right (.right (.right (.right (.right (.right (.right (.right (.left token)))))))) =>
      ⟨.lessEqualOperator, (token, ()), rfl⟩
  | .right (.right (.right (.right (.right (.right (.right (.right (.right (.left token))))))))) =>
      ⟨.greaterEqualOperator, (token, ()), rfl⟩
  | .right (.right (.right (.right (.right (.right (.right
      (.right (.right (.right (.left token)))))))))) =>
      ⟨.lessOperator, (token, ()), rfl⟩
  | .right (.right (.right (.right (.right (.right (.right
      (.right (.right (.right (.right token)))))))))) =>
      ⟨.greaterOperator, (token, ()), rfl⟩

/-- Every phrase of what a nonterminal stands for is made by one of its rules. -/
theorem exists_ruleImage_eq : (x : Nonterminal) → (phrase : Phrase x.image) →
    ∃ (rule : Rule x) (images : Images rule.parts), ruleImage rule images = phrase
  | .program, .construct _ (.both newline items) => ⟨.program, (newline, items, ()), rfl⟩
  | .items, .both .done .absent => ⟨.noItems, (), rfl⟩
  | .items, .both .done (.present item) => ⟨.someItems, (item, .absent, ()), rfl⟩
  | .items, .both (.more (.both item newline) lines) last =>
      ⟨.someItems, (item, .present (.both newline (.both lines last)), ()), rfl⟩
  | .moreItems, .absent => ⟨.lastItem, (), rfl⟩
  | .moreItems, .present (.both newline items) => ⟨.nextItems, (newline, items, ()), rfl⟩
  | .loneExpression, .construct _ (.both before (.both expression after)) =>
      ⟨.loneExpression, (before, expression, after, ()), rfl⟩
  | .optionalNewline, .absent => ⟨.noNewline, (), rfl⟩
  | .optionalNewline, .present newline => ⟨.newline, (newline, ()), rfl⟩
  | .item, .construct _ (.left item) => ⟨.functionItem, (item, ()), rfl⟩
  | .item, .construct _ (.right (.left item)) => ⟨.typeItem, (item, ()), rfl⟩
  | .item, .construct _ (.right (.right item)) => ⟨.assignmentItem, (item, ()), rfl⟩
  | .functionDecl, .construct _ (.both name (.both opening (.both names (.both closing
      (.both brace (.both newline (.both body brace'))))))) =>
      ⟨.functionDecl, (name, opening, names, closing, brace, newline, body, brace', ()), rfl⟩
  | .typeDecl, .construct _ (.both keyword (.both name (.both parameters (.both brace
      (.both newline (.both options brace')))))) =>
      ⟨.typeDecl, (keyword, name, parameters, brace, newline, options, brace', ()), rfl⟩
  | .typeParameters, .absent => ⟨.noTypeParameters, (), rfl⟩
  | .typeParameters, .present (.construct _ (.both opening (.both names closing))) =>
      ⟨.typeParameters, (opening, names, closing, ()), rfl⟩
  | .optionalNames, .absent => ⟨.noNames, (), rfl⟩
  | .optionalNames, .present names => ⟨.someNames, (names, ()), rfl⟩
  | .names, .construct _ (.both name more) => ⟨.names, (name, more, ()), rfl⟩
  | .moreNames, .done => ⟨.lastName, (), rfl⟩
  | .moreNames, .more (.both comma name) later =>
      ⟨.nextNames, (comma, .construct .names (.both name later), ()), rfl⟩
  | .typeOptions, .both (.both option newline) more =>
      ⟨.typeOptions, (option, newline, more, ()), rfl⟩
  | .moreTypeOptions, .done => ⟨.lastTypeOption, (), rfl⟩
  | .moreTypeOptions, .more first later => ⟨.nextTypeOptions, (.both first later, ()), rfl⟩
  | .typeOption, .construct _ (.both name arguments) => ⟨.typeOption, (name, arguments, ()), rfl⟩
  | .typeArguments, .absent => ⟨.noTypeArguments, (), rfl⟩
  | .typeArguments, .present (.both opening (.both arguments closing)) =>
      ⟨.typeArguments, (opening, arguments, closing, ()), rfl⟩
  | .typeExprs, .construct _ (.both argument more) => ⟨.typeExprs, (argument, more, ()), rfl⟩
  | .moreTypeExprs, .done => ⟨.lastTypeExpr, (), rfl⟩
  | .moreTypeExprs, .more (.both comma argument) later =>
      ⟨.nextTypeExprs, (comma, .construct .typeExpressions (.both argument later), ()), rfl⟩
  | .typeExpr, .construct _ (.both name arguments) => ⟨.typeExpr, (name, arguments, ()), rfl⟩
  | .body, .construct _ lines => ⟨.body, (lines, ()), rfl⟩
  | .bodyLines, .both .done .absent => ⟨.noLines, (), rfl⟩
  | .bodyLines, .both .done (.present (.both trailing newline)) =>
      ⟨.trailingLine, (trailing, newline, ()), rfl⟩
  | .bodyLines, .both (.more (.both statement newline) lines) trailing =>
      ⟨.statementLine, (statement, newline, .both lines trailing, ()), rfl⟩
  | .statement, .construct _ (.left statement) => ⟨.assignmentStatement, (statement, ()), rfl⟩
  | .statement, .construct _ (.right (.left statement)) => ⟨.callStatement, (statement, ()), rfl⟩
  | .statement, .construct _ (.right (.right statement)) => ⟨.caseStatement, (statement, ()), rfl⟩
  | .assignment, .construct _ (.both target value) => ⟨.assignment, (target, value, ()), rfl⟩
  | .target, .construct _ (.left (.construct _ (.both keyword (.both name sign)))) =>
      ⟨.mutableTarget, (keyword, name, sign, ()), rfl⟩
  | .target, .construct _ (.right (.left (.construct _ (.both name sign)))) =>
      ⟨.updateTarget, (name, sign, ()), rfl⟩
  | .target, .construct _ (.right (.right (.construct _ (.both name sign)))) =>
      ⟨.bindTarget, (name, sign, ()), rfl⟩
  | .assignedValue, .construct _ (.left value) => ⟨.caseValue, (value, ()), rfl⟩
  | .assignedValue, .construct _ (.right value) => ⟨.expressionValue, (value, ()), rfl⟩
  | .trailing, .construct _ (.left (.both term (.both (.both operator second) later))) =>
      ⟨.chainTrailing, (term, operator, .both second later, ()), rfl⟩
  | .trailing, .construct _ (.right (.left reference)) => ⟨.referenceTrailing, (reference, ()), rfl⟩
  | .trailing, .construct _ (.right (.right (.left number))) => ⟨.numberTrailing, (number, ()), rfl⟩
  | .trailing, .construct _ (.right (.right (.right (.both opening (.both expression closing))))) =>
      ⟨.parenthesisedTrailing, (opening, expression, closing, ()), rfl⟩
  | .caseExpr, .construct _ (.both keyword (.both scrutinee (.both brace (.both newline
      (.both options brace'))))) =>
      ⟨.caseExpr, (keyword, scrutinee, brace, newline, options, brace', ()), rfl⟩
  | .caseOptions, .both (.both option newline) more =>
      ⟨.caseOptions, (option, newline, more, ()), rfl⟩
  | .moreCaseOptions, .done => ⟨.lastCaseOption, (), rfl⟩
  | .moreCaseOptions, .more first later => ⟨.nextCaseOptions, (.both first later, ()), rfl⟩
  | .caseOption, .construct _ (.both pattern (.both arrow arm)) =>
      ⟨.caseOption, (pattern, arrow, arm, ()), rfl⟩
  | .pattern, .construct _ (.both name bindings) => ⟨.pattern, (name, bindings, ()), rfl⟩
  | .bindings, .absent => ⟨.noBindings, (), rfl⟩
  | .bindings, .present (.both opening (.both names closing)) =>
      ⟨.bindings, (opening, names, closing, ()), rfl⟩
  | .arm, .left expression => ⟨.expressionArm, (expression, ()), rfl⟩
  | .arm, .right (.construct _ (.both brace (.both newline (.both body brace')))) =>
      ⟨.bodyArm, (brace, newline, body, brace', ()), rfl⟩
  | .armBody, .left (.construct _ lines) => ⟨.armBody, (.left lines, ()), rfl⟩
  | .armBody, .right (.construct _ lines) => ⟨.armBody, (.right lines, ()), rfl⟩
  | .armLines, .left (.both .done .absent) => ⟨.noArmLines, (), rfl⟩
  | .armLines, .left (.both .done (.present (.both trailing newline))) =>
      ⟨.trailingArmLine, (trailing, .present newline, ()), rfl⟩
  | .armLines, .left (.both (.more (.both statement newline) lines) trailing) =>
      ⟨.statementArmLine,
        (statement, .present (.both newline (.left (.both lines trailing))), ()), rfl⟩
  | .armLines, .right (.both .done (.left statement)) =>
      ⟨.statementArmLine, (statement, .absent, ()), rfl⟩
  | .armLines, .right (.both .done (.right trailing)) =>
      ⟨.trailingArmLine, (trailing, .absent, ()), rfl⟩
  | .armLines, .right (.both (.more (.both statement newline) lines) last) =>
      ⟨.statementArmLine,
        (statement, .present (.both newline (.right (.both lines last))), ()), rfl⟩
  | .moreArmLines, .absent => ⟨.lastArmLine, (), rfl⟩
  | .moreArmLines, .present (.both newline lines) => ⟨.nextArmLines, (newline, lines, ()), rfl⟩
  | .expression, .construct _ chain => ⟨.expression, (chain, ()), rfl⟩
  | .chain, .both term more => ⟨.chain, (term, more, ()), rfl⟩
  | .moreChain, .done => ⟨.lastTerm, (), rfl⟩
  | .moreChain, .more (.both operator term) later =>
      ⟨.nextTerms, (operator, .both term later, ()), rfl⟩
  | .term, .construct _ (.left term) => ⟨.callTerm, (term, ()), rfl⟩
  | .term, .construct _ (.right (.left term)) => ⟨.referenceTerm, (term, ()), rfl⟩
  | .term, .construct _ (.right (.right (.left term))) => ⟨.numberTerm, (term, ()), rfl⟩
  | .term, .construct _ (.right (.right (.right (.both opening (.both expression closing))))) =>
      ⟨.parenthesisedTerm, (opening, expression, closing, ()), rfl⟩
  | .call, .construct _ (.both name (.both opening (.both arguments closing))) =>
      ⟨.call, (name, opening, arguments, closing, ()), rfl⟩
  | .callArguments, .absent => ⟨.noArguments, (), rfl⟩
  | .callArguments, .present arguments => ⟨.someArguments, (arguments, ()), rfl⟩
  | .arguments, .construct _ (.both argument more) => ⟨.arguments, (argument, more, ()), rfl⟩
  | .moreArguments, .done => ⟨.lastArgument, (), rfl⟩
  | .moreArguments, .more (.both comma argument) later =>
      ⟨.nextArguments, (comma, .construct .arguments (.both argument later), ()), rfl⟩
  | .reference, .construct _ name => ⟨.reference, (name, ()), rfl⟩
  | .number, .construct _ (.both .absent number) => ⟨.unsignedNumber, (number, ()), rfl⟩
  | .number, .construct _ (.both (.present sign) number) => ⟨.signedNumber, (sign, number, ()), rfl⟩
  | .sign, .construct _ (.left token) => ⟨.plusSign, (token, ()), rfl⟩
  | .sign, .construct _ (.right token) => ⟨.minusSign, (token, ()), rfl⟩
  | .operator, .construct _ phrase => exists_operatorRule phrase
  | .name, .construct _ (.left token) => ⟨.identifierName, (token, ()), rfl⟩
  | .name, .construct _ (.right (.left token)) => ⟨.typeName, (token, ()), rfl⟩
  | .name, .construct _ (.right (.right (.left token))) => ⟨.caseName, (token, ()), rfl⟩
  | .name, .construct _ (.right (.right (.right token))) => ⟨.mutName, (token, ()), rfl⟩

/-! ## Derivations of phrases -/

theorem Derivation.exists_token_eq {t : Terminal} (phrase : Phrase (Symbol.image (.tok t))) :
    ∃ d : Derivation (.tok t), d.phrase = phrase ∧ phrase.tokens.length = 1 := by
  cases phrase with
  | token _ token kind_eq => exact ⟨.token t token kind_eq, rfl, rfl⟩

/-- Some phrases are those of derivations if every phrase is that has fewer than `n` tokens, or has
`n` tokens and a rank below `r`. -/
theorem Derivations.exists_phrases_eq {n r : Nat}
    (hsmaller : ∀ (x : Nonterminal) (phrase : Phrase (Symbol.image (.sub x))),
      phrase.tokens.length < n ∨ phrase.tokens.length = n ∧ x.rank < r →
        ∃ d : Derivation (.sub x), d.phrase = phrase) :
    {ss : List Symbol} → (images : Images ss) → images.tokens.length ≤ n →
      (images.tokens.length = n → leadRank ss < r) →
        ∃ ds : Derivations ss, ds.phrases = images
  | [], (), _, _ => ⟨.nil, rfl⟩
  | .tok t :: ss, images, hlength, _ => by
      have hsum := images.length_tokens_cons
      obtain ⟨d, hd, htoken⟩ := Derivation.exists_token_eq images.1
      -- a token has been read, so that what comes after it is shorter
      obtain ⟨ds, hds⟩ := exists_phrases_eq hsmaller images.2 (by omega) fun h => by omega
      exact ⟨.cons d ds, Prod.ext hd hds⟩
  | .sub x :: ss, images, hlength, hrank => by
      have hsum := images.length_tokens_cons
      have hlead : x.rank ≤ leadRank (.sub x :: ss) := Nat.le_add_right _ _
      -- the first part is shorter, or it is all there is and its rank is lower
      obtain ⟨d, hd⟩ := hsmaller x images.1 (by
        by_cases hfirst : images.1.tokens.length = n
        · exact .inr ⟨hfirst, Nat.lt_of_le_of_lt hlead (hrank (by omega))⟩
        · exact .inl (by omega))
      -- if the later parts are all there is, the first is nullable and they lead in its place
      obtain ⟨ds, hds⟩ := exists_phrases_eq hsmaller images.2 (by omega) fun hlater => by
        have hempty : images.1.tokens = [] := List.length_eq_zero_iff.1 (by omega)
        have hnullable : x.isNullable :=
          x.isNullable_image.symm.trans (images.1.isNullable_of_tokens hempty)
        have hless := hrank (by omega)
        rw [leadRank, if_pos hnullable] at hless
        exact Nat.lt_of_le_of_lt (Nat.le_add_left _ _) hless
      exact ⟨.cons d ds, Prod.ext hd hds⟩

/-- Every phrase of what a nonterminal stands for is the phrase of a derivation. -/
theorem Derivation.exists_phrase_eq (x : Nonterminal) (phrase : Phrase x.image) :
    ∃ d : Derivation (.sub x), d.phrase = phrase := by
  obtain ⟨rule, images, hphrase⟩ := exists_ruleImage_eq x phrase
  have htokens : phrase.tokens = images.tokens := hphrase ▸ ruleImage_tokens rule images
  obtain ⟨parts, hparts⟩ := Derivations.exists_phrases_eq
    (fun y smaller _ => Derivation.exists_phrase_eq y smaller) images
    (Nat.le_of_eq (congrArg List.length htokens.symm)) fun _ => (rank_parts rule).1
  exact ⟨.node rule parts, by rw [Derivation.phrase, hparts, hphrase]⟩
termination_by (phrase.tokens.length, x.rank)
decreasing_by
  rename_i hless
  rw [Prod.lex_def]
  exact hless

end Spruce
