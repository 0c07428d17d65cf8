import Spruce.Proofs.Meaning.Nodes
import Spruce.Proofs.RoundTrip.Grammatical
import Spruce.Proofs.Token.Cuts

set_option autoImplicit false

/-!
# Trees that are read are grammatical

Every node of a tree that was read holds in each field what the field is meant for: names that are
names, numbers in the pieces of a numeral, one more term than operators, and children of the kinds
that can stand in their place (`grammatical_of_parse`). Each rule of the grammar keeps to that
(`isSound_ruleMeaning`), given tokens that were cut off texts.

Main definition: `Nonterminal.IsSound`, what the meanings of a nonterminal are like.
-/

namespace Spruce

/-! ## Tokens -/

/-- A token that was cut off some text. -/
def Token.IsCut (t : Token) : Prop := ∃ cs, lexeme cs = some ⟨some t.kind, t.text⟩

theorem isCut_of_lex {text : Text} (h : (lex text).rest = []) :
    ∀ t ∈ (lex text).tokens, t.IsCut := by
  obtain ⟨ls, hls, -, htokens⟩ := lex_rest_eq_nil_iff.1 h
  intro t ht
  rw [htokens] at ht
  obtain ⟨before, after, hsplit⟩ := List.append_of_mem ht
  obtain ⟨ls₁, ⟨kind, w⟩, ls₂, rfl, -, rfl, ht, -⟩ := exists_of_place_eq hsplit
  have hw : t.text = w := congrArg Token.text ht
  cases hls.of_append_right with
  | cons h _ => exact ⟨_, hw ▸ h⟩

theorem Token.IsCut.isProper {t : Token} (h : t.IsCut) :
    Lexeme.IsProper ⟨some t.kind, t.text⟩ := by
  obtain ⟨_, h⟩ := h
  exact (isProper_of_lexeme h).1

theorem Lexeme.IsProper.isNumber {l : Lexeme} (h : l.IsProper) (hkind : l.kind = some .number) :
    Text.IsNumber l.text := by
  cases h with
  | word h => exact absurd (Option.some.inj hkind ▸ wordKind_mem _) (by decide)
  | number h => exact h
  | newline h => exact absurd (Option.some.inj hkind) (by decide)
  | blanks _ h => exact absurd hkind (Option.some_ne_none _).symm
  | symbol h => exact absurd (Option.some.inj hkind ▸ h) (by decide)

/-- What follows an exponent mark is an exponent. -/
theorem isExponent_exponentPiece {exponent : Text} (h : exponent.IsExponentPart) :
    ∀ t ∈ (exponentPiece exponent).map String.toList, Text.IsExponent t := by
  intro t ht
  rcases h with rfl | ⟨mark, es, -, hes, rfl⟩
  · exact absurd ht (Option.not_mem_none t)
  · obtain rfl := Option.some.inj ht
    rwa [String.toList_ofList]

/-- The pieces of a number make a numeral. -/
theorem isNumeral_numeralPieces {w : Text} (h : w.IsNumber) :
    IsNumeral (numeralPieces w).integer.toList ((numeralPieces w).fraction.map String.toList)
      ((numeralPieces w).exponent.map String.toList) := by
  obtain ⟨integer, fraction, exponent, hne, hinteger, hfraction, hexponent, rfl⟩ := h
  have hexponentPiece := isExponent_exponentPiece hexponent
  have hafter : Text.Opens (fun c => !isDigit c) (fraction ++ exponent) := by
    intro c hc
    obtain ⟨cs, hcons⟩ := List.head?_eq_some_iff.1 hc
    exact congrArg not (not_isDigit_of_parts hfraction hexponent hcons)
  have hdigits : digits (integer ++ (fraction ++ exponent)) = integer :=
    digits_append hinteger hafter
  rw [numeralPieces, hdigits, dropWhile_append_of_opens hinteger hafter]
  rcases hfraction with rfl | ⟨ds, hds, rfl⟩
  · have hnone : IsNumeral (String.ofList integer).toList none
        ((exponentPiece exponent).map String.toList) := by
      rw [String.toList_ofList]
      exact ⟨hne, hinteger, fun t ht => absurd ht (Option.not_mem_none t), hexponentPiece⟩
    -- an exponent does not start with a decimal point
    rcases hexponent with rfl | ⟨mark, es, rfl | rfl, -, rfl⟩ <;> exact hnone
  · have hopens : Text.Opens (fun c => !isDigit c) exponent := by
      intro c hc
      obtain ⟨cs, hcons⟩ := List.head?_eq_some_iff.1 hc
      exact congrArg not (not_isDigit_of_parts (.inl rfl : Text.IsFractionPart []) hexponent hcons)
    show IsNumeral (String.ofList integer).toList
      (some (String.ofList (digits (ds ++ exponent))).toList)
        ((exponentPiece ((ds ++ exponent).dropWhile isDigit)).map String.toList)
    rw [digits_append hds hopens, dropWhile_append_of_opens hds hopens, String.toList_ofList,
      String.toList_ofList]
    exact ⟨hne, hinteger, fun t ht => Option.some.inj ht ▸ hds, hexponentPiece⟩

/-! ## Meanings -/

/-- Nodes that may stand in a place. -/
def AllGrammatical (place : Place) (ns : List Node) : Prop := ∀ n ∈ ns, Grammatical place n

/-- Names. -/
def AllNames (names : List String) : Prop := ∀ s ∈ names, IsName s

/-- Lines of a body, with no lone call for its value. -/
structure Lines.IsSound (lines : Lines) : Prop where
  statements : AllGrammatical .statement lines.statements
  trailing : ∀ n ∈ lines.trailing, Grammatical .expression n
  not_isLoneCall : ∀ n ∈ lines.trailing, n.isLoneCall = false

/-- Terms, of which there are `surplus` more than operators. -/
structure Chain.IsSound (surplus : Nat) (chain : Chain) : Prop where
  length_eq : chain.terms.length = chain.operators.length + surplus
  terms : AllGrammatical .term chain.terms

/-- What the meanings of a nonterminal are like in a tree that is grammatical. -/
def Nonterminal.IsSound : (x : Nonterminal) → x.Meaning → Prop
  | .program, n => Grammatical .program n
  | .items, ns | .moreItems, ns => AllGrammatical .item ns
  | .item, n | .functionDecl, n | .typeDecl, n => Grammatical .item n
  | .typeOptions, ns => ns ≠ ([] : List Node) ∧ AllGrammatical .typeOption ns
  | .moreTypeOptions, ns => AllGrammatical .typeOption ns
  | .typeOption, n => Grammatical .typeOption n
  | .typeArguments, ns | .typeExprs, ns | .moreTypeExprs, ns => AllGrammatical .typeExpr ns
  | .typeExpr, n => Grammatical .typeExpr n
  | .body, n | .armBody, n => Grammatical .body n
  | .bodyLines, lines | .armLines, lines | .moreArmLines, lines => Lines.IsSound lines
  | .statement, n => Grammatical .statement n
  | .assignment, n => Grammatical .assignment n
  | .target, n => Node.IsTarget n
  | .assignedValue, n => Grammatical .assigned n
  | .trailing, n => Grammatical .expression n ∧ Node.isLoneCall n = false
  | .caseExpr, n => Grammatical .caseOf n
  | .caseOptions, ns => ns ≠ ([] : List Node) ∧ AllGrammatical .caseOption ns
  | .moreCaseOptions, ns => AllGrammatical .caseOption ns
  | .caseOption, n => Grammatical .caseOption n
  | .pattern, n => Node.IsPattern n
  | .arm, n => Grammatical .arm n
  | .loneExpression, n | .expression, n => Grammatical .expression n
  | .chain, c => Chain.IsSound 1 c
  | .moreChain, c => Chain.IsSound 0 c
  | .term, n => Grammatical .term n
  | .reference, n | .number, n => Grammatical .term n ∧ Node.isCall n = false
  | .call, n => Grammatical .call n
  | .callArguments, ns | .arguments, ns | .moreArguments, ns => AllGrammatical .expression ns
  | .typeParameters, ss | .optionalNames, ss | .names, ss | .moreNames, ss | .bindings, ss =>
      AllNames ss
  | .name, s => IsName s
  | .sign, t => Token.text t = ['+'] ∨ Token.text t = ['-']
  | .optionalNewline, _ | .operator, _ => True

/-- What the meanings of a symbol are like. -/
def Symbol.IsSound : (s : Symbol) → s.Meaning → Prop
  | .tok t, token => Token.IsCut token ∧ Token.kind token = t
  | .sub x, m => x.IsSound m

/-- What the meanings of some symbols are like. -/
def Meanings.AreSound : {ss : List Symbol} → Meanings ss → Prop
  | [], _ => True
  | s :: _, (m, ms) => s.IsSound m ∧ Meanings.AreSound ms

/-! ## Rules -/

theorem Token.IsCut.isName {t : Token} (h : t.IsCut)
    (hkind : t.kind ∈ Terminal.identifier :: Terminal.keywords) : IsName t.name := by
  rw [IsName, Token.name, String.toList_ofList]
  exact h.isProper.isName rfl hkind

theorem Token.IsCut.text_eq {t : Token} {kind : Terminal} (h : t.IsCut) (hkind : t.kind = kind)
    (hsymbol : kind ∈ Terminal.symbols) : t.text = kind.spelling := by
  obtain ⟨_, h⟩ := h
  exact lexeme_text_eq_spelling h (congrArg some hkind) hsymbol

theorem grammatical_numberNode {sign : Text} {t : Token} (span : Option Span)
    (hsign : String.ofList sign = "" ∨ String.ofList sign = "+" ∨ String.ofList sign = "-")
    (h : t.IsCut) (hkind : t.kind = .number) :
    Grammatical .term (numberNode span sign t) ∧ (numberNode span sign t).isCall = false := by
  have hnumber : Text.IsNumber t.text := h.isProper.isNumber (congrArg some hkind)
  exact ⟨.number hsign (isNumeral_numeralPieces hnumber), rfl⟩

theorem Grammatical.isCall_eq_false {n : Node} (h : Grammatical .expression n) :
    n.isCall = false := by
  cases h
  rfl

theorem Lines.isSound_nil : Lines.IsSound ⟨[], none⟩ :=
  ⟨fun _ hn => absurd hn List.not_mem_nil, fun n hn => absurd hn (Option.not_mem_none n),
    fun n hn => absurd hn (Option.not_mem_none n)⟩

theorem Lines.isSound_trailing {n : Node} (h : Grammatical .expression n)
    (hcall : n.isLoneCall = false) : Lines.IsSound ⟨[], some n⟩ :=
  ⟨fun _ hm => absurd hm List.not_mem_nil, fun _ hm => Option.some.inj hm ▸ h,
    fun _ hm => Option.some.inj hm ▸ hcall⟩

theorem Lines.IsSound.after {n : Node} {lines : Lines} (h : Grammatical .statement n)
    (hlines : lines.IsSound) : (lines.after n).IsSound :=
  ⟨List.forall_mem_cons.2 ⟨h, hlines.statements⟩, hlines.trailing, hlines.not_isLoneCall⟩

theorem Lines.IsSound.grammatical {lines : Lines} (h : lines.IsSound) (span : Option Span) :
    Grammatical .body (lines.node span) :=
  .body h.statements h.trailing h.not_isLoneCall

theorem Chain.IsSound.grammatical {c : Chain} (h : c.IsSound 1) (span : Option Span) :
    Grammatical .expression (c.node span) :=
  .expr h.length_eq h.terms

theorem Chain.isSound_single {n : Node} (h : Grammatical .term n) : (Chain.single n).IsSound 1 :=
  ⟨rfl, List.forall_mem_singleton.2 h⟩

theorem Chain.IsSound.after {n : Node} {c : Chain} (hn : Grammatical .term n) (h : c.IsSound 1)
    (operator : Operator) : (c.after n operator).IsSound 1 :=
  ⟨congrArg Nat.succ h.length_eq, List.forall_mem_cons.2 ⟨hn, h.terms⟩⟩

/-- Terms with an operator between them are no lone call. -/
theorem Chain.IsSound.isLoneCall_after {c : Chain} (h : c.IsSound 1) (n : Node)
    (operator : Operator) (span : Option Span) :
    ((c.after n operator).node span).isLoneCall = false := by
  obtain ⟨terms, operators⟩ := c
  cases terms with
  | nil => exact absurd h.length_eq (Nat.succ_ne_zero _).symm
  | cons m terms => rfl

/-- The meaning of a rule is sound if those of its parts are. -/
theorem isSound_ruleMeaning {x : Nonterminal} (rule : Rule x) (span : Option Span)
    {ms : Meanings rule.parts} (h : ms.AreSound) : x.IsSound (ruleMeaning rule span ms) := by
  cases rule with
  | program => exact .program h.2.1
  | noItems | lastItem | noTypeParameters | noNames | lastName | lastTypeOption | noTypeArguments
  | lastTypeExpr | lastCaseOption | noBindings | noArguments | lastArgument =>
      exact fun n hn => absurd hn List.not_mem_nil
  | someItems | names | typeExprs | arguments => exact List.forall_mem_cons.2 ⟨h.1, h.2.1⟩
  | loneExpression | nextItems | typeParameters | nextNames | typeArguments | nextTypeExprs
  | bindings | nextArmLines | nextArguments => exact h.2.1
  | functionItem | typeItem | someNames | someArguments => exact h.1
  | noNewline | newline => exact trivial
  | assignmentItem => exact .assignmentItem h.1
  | functionDecl => exact .functionDecl h.1 h.2.2.1 h.2.2.2.2.2.2.1
  | typeDecl => exact .typeDecl h.2.1 h.2.2.1 h.2.2.2.2.2.1.1 h.2.2.2.2.2.1.2
  | typeOptions | caseOptions =>
      exact ⟨List.cons_ne_nil _ _, List.forall_mem_cons.2 ⟨h.1, h.2.2.1⟩⟩
  | nextTypeOptions | nextCaseOptions => exact h.1.2
  | typeOption => exact .typeOption h.1 h.2.1
  | typeExpr => exact .typeExpr h.1 h.2.1
  | body | armBody => exact h.1.grammatical span
  | noLines | noArmLines | lastArmLine => exact Lines.isSound_nil
  | trailingLine | trailingArmLine => exact Lines.isSound_trailing h.1.1 h.1.2
  | statementLine => exact h.2.2.1.after h.1
  | statementArmLine => exact h.2.1.after h.1
  | assignmentStatement => exact .assignmentStatement h.1
  | callStatement => exact .callStatement h.1
  | caseStatement => exact .caseStatement h.1
  | assignment =>
      obtain ⟨_, _, _, hname, htarget⟩ := h.1
      show Grammatical .assignment (.assign span (.node ms.1) (.node ms.2.1))
      rw [htarget]
      exact .assign hname h.2.1
  | bindTarget | updateTarget => exact ⟨_, _, _, h.1, rfl⟩
  | mutableTarget => exact ⟨_, _, _, h.2.1, rfl⟩
  | caseValue => exact .assignedCase h.1
  | expressionValue => exact .assignedExpression h.1
  | chainTrailing =>
      have hchain := h.2.2.1
      exact ⟨(hchain.after h.1 _).grammatical span, hchain.isLoneCall_after _ _ span⟩
  | referenceTrailing | numberTrailing =>
      exact ⟨(Chain.isSound_single h.1.1).grammatical span, h.1.2⟩
  | parenthesisedTrailing =>
      have hterm : Grammatical .term ms.2.1 := .expressionTerm h.2.1
      exact ⟨(Chain.isSound_single hterm).grammatical span, Grammatical.isCall_eq_false h.2.1⟩
  | caseExpr => exact .caseOf h.2.1 h.2.2.2.2.1.1 h.2.2.2.2.1.2
  | caseOption =>
      obtain ⟨_, _, _, hname, hbindings, hpattern⟩ := h.1
      show Grammatical .caseOption (.caseOption span (.node ms.1) (.node ms.2.2.1))
      rw [hpattern]
      exact .caseOption hname hbindings h.2.2.1
  | pattern => exact ⟨_, _, _, h.1, h.2.1, rfl⟩
  | expressionArm => exact .armExpression h.1
  | bodyArm => exact .armBody h.2.2.1
  | expression => exact h.1.grammatical span
  | chain => exact ⟨congrArg Nat.succ h.2.1.length_eq, List.forall_mem_cons.2 ⟨h.1, h.2.1.terms⟩⟩
  | lastTerm => exact ⟨rfl, fun n hn => absurd hn List.not_mem_nil⟩
  | nextTerms => exact ⟨h.2.1.length_eq, h.2.1.terms⟩
  | callTerm => exact .callTerm h.1
  | referenceTerm | numberTerm => exact h.1.1
  | parenthesisedTerm => exact .expressionTerm h.2.1
  | call => exact .call h.1 h.2.2.1
  | reference => exact ⟨.identifier h.1, rfl⟩
  | unsignedNumber => exact grammatical_numberNode span (.inl rfl) h.1.1 h.1.2
  | signedNumber =>
      have hsign : String.ofList ms.1.text = "+" ∨ String.ofList ms.1.text = "-" :=
        h.1.imp (congrArg String.ofList) (congrArg String.ofList)
      exact grammatical_numberNode span (.inr hsign) h.2.1.1 h.2.1.2
  | plusSign => exact .inl (h.1.1.text_eq h.1.2 (by decide))
  | minusSign => exact .inr (h.1.1.text_eq h.1.2 (by decide))
  | addOperator | subtractOperator | multiplyOperator | divideOperator | powerOperator
  | moduloOperator | equalOperator | notEqualOperator | lessEqualOperator | greaterEqualOperator
  | lessOperator | greaterOperator => exact trivial
  | identifierName | typeName | caseName | mutName =>
      exact h.1.1.isName (h.1.2.symm ▸ by decide)

/-! ## Derivations -/

mutual

/-- What a derivation from tokens that were cut off texts means is sound. -/
theorem Derivation.isSound {filename : Option String} : {s : Symbol} → (d : Derivation s) →
    (∀ t ∈ d.tokens, t.IsCut) → s.IsSound (d.understand filename).meaning
  | _, .token _ t hkind, h => ⟨h t List.mem_cons_self, hkind⟩
  | _, .node rule parts, h => isSound_ruleMeaning rule _ (parts.areSound h)

theorem Derivations.areSound {filename : Option String} : {ss : List Symbol} →
    (ds : Derivations ss) → (∀ t ∈ ds.tokens, t.IsCut) →
      (ds.understand filename).meanings.AreSound
  | _, .nil, _ => trivial
  | _, .cons first rest, h =>
      ⟨first.isSound fun t ht => h t (List.mem_append_left _ ht),
        rest.areSound fun t ht => h t (List.mem_append_right _ ht)⟩

end

/-- The place that the tree of a whole text can stand in. -/
def Start.place : Start → Place
  | program => .program
  | expression => .expression

/-- The tree of a text is grammatical. -/
theorem grammatical_of_parse {start : Start} {filename : Option String} {text : Text} {root : Node}
    (h : (parse start filename text).outcome = .ok root) : Grammatical start.place root := by
  obtain ⟨hrest, d, htokens, -, rfl⟩ := parse_eq_ok_iff.1 h
  have hcut : ∀ t ∈ d.tokens, t.IsCut := htokens ▸ isCut_of_lex hrest
  cases start with
  | program => exact d.isSound hcut
  | expression => exact d.isSound hcut

end Spruce
