import Spruce.Grammar.Reading

set_option autoImplicit false

/-!
# Lookahead

A token sequence of a nonterminal starts with a token of certain kinds, and inside a whole text it
is followed by a token of certain kinds or by the end. Both are tables (`Nonterminal.first`,
`Nonterminal.follow`), checked rule by rule (`heads_parts`, `followed_parts`); what comes of them
for derivations is `Derivations.ahead_mem`.

Where the lookaheads of the rules of a nonterminal have nothing in common, one token decides
between them (`Nonterminal.isPredictive`, `lookahead_disjoint`). The other nonterminals are those
for which keywords double as names, or a call as a statement.
-/

namespace Spruce

/-! ## Groups of terminals -/

namespace Terminal

/-- The terminals that a name may be. -/
def names : List Terminal := [identifier, typeKeyword, caseKeyword, mutKeyword]

/-- The operators. -/
def operators : List Terminal :=
  [plus, minus, star, slash, caret, percent, equalEqual, notEqual, lessEqual, greaterEqual, less,
    greater]

/-- The terminals that a term may start with. -/
def termStarts : List Terminal := names ++ [number, plus, minus, leftParen]

end Terminal

/-- What may come after an expression: the end, or a token that no expression goes on with. -/
def expressionFollow : List (Option Terminal) :=
  [none, some .newline, some .rightBrace, some .leftBrace, some .comma, some .rightParen]

/-- What may come after a term. -/
def termFollow : List (Option Terminal) := Terminal.operators.map some ++ expressionFollow

/-! ## Tables -/

namespace Nonterminal

/-- The kinds of token that a token sequence of a nonterminal may start with. -/
def first : Nonterminal → List Terminal
  | .program => .newline :: Terminal.names
  | .items | .item | .functionDecl | .optionalNames | .names | .typeOptions | .moreTypeOptions
  | .typeOption | .typeExprs | .typeExpr | .statement | .assignment | .target | .caseOptions
  | .moreCaseOptions | .caseOption | .pattern | .call | .reference | .name => Terminal.names
  | .moreItems | .optionalNewline | .moreArmLines => [.newline]
  | .loneExpression => .newline :: Terminal.termStarts
  | .typeDecl => [.typeKeyword]
  | .typeParameters | .typeArguments | .bindings => [.leftParen]
  | .moreNames | .moreTypeExprs | .moreArguments => [.comma]
  | .body | .bodyLines | .assignedValue | .trailing | .armBody | .armLines | .expression | .chain
  | .term | .callArguments | .arguments => Terminal.termStarts
  | .caseExpr => [.caseKeyword]
  | .arm => .leftBrace :: Terminal.termStarts
  | .moreChain | .operator => Terminal.operators
  | .number => [.number, .plus, .minus]
  | .sign => [.plus, .minus]

/-- The kinds of token that may come after a token sequence of a nonterminal, `none` being the end
of the text. -/
def follow : Nonterminal → List (Option Terminal)
  | .program | .items | .moreItems | .loneExpression => [none]
  | .optionalNewline => none :: some .rightBrace :: Terminal.termStarts.map some
  | .item | .functionDecl | .typeDecl => [none, some .newline]
  | .typeParameters => [some .leftBrace]
  | .optionalNames | .names | .moreNames | .typeExprs | .moreTypeExprs | .callArguments
  | .arguments | .moreArguments => [some .rightParen]
  | .typeOptions | .moreTypeOptions | .body | .bodyLines | .caseOptions | .moreCaseOptions
  | .armBody | .armLines | .moreArmLines => [some .rightBrace]
  | .typeOption | .caseOption | .arm => [some .newline]
  | .typeArguments => [some .newline, some .comma, some .rightParen]
  | .typeExpr => [some .comma, some .rightParen]
  | .statement | .trailing => [some .newline, some .rightBrace]
  | .assignment | .assignedValue | .caseExpr => [none, some .newline, some .rightBrace]
  | .target | .operator => Terminal.termStarts.map some
  | .pattern | .bindings => [some .arrow]
  | .expression | .chain | .moreChain => expressionFollow
  | .term | .call | .reference | .number => termFollow
  | .sign => [some .number]
  | .name => none :: Terminal.all.map some

/-- One token decides between the rules of a nonterminal. -/
def isPredictive : Nonterminal → Bool
  | .item | .bodyLines | .statement | .target | .assignedValue | .trailing | .armLines
  | .term => false
  | _ => true

end Nonterminal

/-! ## What symbols start with -/

/-- The kinds of token that symbols one after another may start with. -/
def heads : List Symbol → List Terminal
  | [] => []
  | .tok t :: _ => [t]
  | .sub x :: ss => x.first ++ if x.isNullable then heads ss else []

/-- What may come next where symbols are still to come, and `after` may come after them. -/
def lookahead (after : List (Option Terminal)) (ss : List Symbol) : List (Option Terminal) :=
  (heads ss).map some ++ if allNullable ss then after else []

/-- After each nonterminal among the symbols comes only what may follow it, if `after` is what may
come after them all. -/
def Followed (after : List (Option Terminal)) : List Symbol → Prop
  | [] => True
  | .tok _ :: ss => Followed after ss
  | .sub x :: ss => (∀ o ∈ lookahead after ss, o ∈ x.follow) ∧ Followed after ss

instance instDecidableFollowed (after : List (Option Terminal)) :
    (ss : List Symbol) → Decidable (Followed after ss)
  | [] => isTrue trivial
  | .tok _ :: ss => instDecidableFollowed after ss
  | .sub x :: ss =>
      have := instDecidableFollowed after ss
      inferInstanceAs (Decidable ((∀ o ∈ lookahead after ss, o ∈ x.follow) ∧ Followed after ss))

/-- A rule starts only with what its nonterminal may start with. -/
theorem heads_parts {x : Nonterminal} (rule : Rule x) : ∀ t ∈ heads rule.parts, t ∈ x.first := by
  cases rule <;> decide

/-- In a rule each nonterminal is followed only by what may follow it. -/
theorem followed_parts {x : Nonterminal} (rule : Rule x) : Followed x.follow rule.parts := by
  cases rule <;> decide

/-- Different rules of a predictive nonterminal have nothing in common to start with. -/
theorem lookahead_disjoint {x : Nonterminal} (hx : x.isPredictive) {r r' : Rule x}
    {o : Option Terminal} (ho : o ∈ lookahead x.follow r.parts)
    (ho' : o ∈ lookahead x.follow r'.parts) : r = r' := by
  have hall : ∀ s ∈ x.rules, ∀ s' ∈ x.rules,
      s = s' ∨ ∀ o ∈ lookahead x.follow s.parts, o ∉ lookahead x.follow s'.parts := by
    cases x <;> first | exact absurd hx (by decide) | decide
  -- every two rules that are not the same have been compared
  rcases hall r r.mem_rules r' r'.mem_rules with h | h
  · exact h
  · exact absurd ho' (h o ho)

/-! ## What derivations start with -/

/-- The kind of the next token, if there is one. -/
def ahead (tokens : List Token) : Option Terminal := tokens.head?.map Token.kind

@[simp] theorem ahead_nil : ahead [] = none := rfl

@[simp] theorem ahead_cons (t : Token) (ts : List Token) : ahead (t :: ts) = some t.kind := rfl

theorem heads_append (ss ts : List Symbol) :
    heads (ss ++ ts) = heads ss ++ if allNullable ss then heads ts else [] := by
  induction ss with
  | nil => simp [heads, allNullable]
  | cons s ss ih =>
      cases s with
      | tok t => simp [heads, allNullable]
      | sub x => cases h : x.isNullable <;> simp [heads, allNullable, h, ih]

theorem allNullable_append (ss ts : List Symbol) :
    allNullable (ss ++ ts) = (allNullable ss && allNullable ts) := by
  induction ss with
  | nil => simp [allNullable]
  | cons s ss ih =>
      cases s with
      | tok t => simp [allNullable]
      | sub x => simp [allNullable, ih, Bool.and_assoc]

/-- Symbols before others start with what they start with by themselves, or, if they derive
nothing, with what the others start with. -/
theorem lookahead_append (after : List (Option Terminal)) (ss ts : List Symbol) :
    lookahead after (ss ++ ts) = lookahead (lookahead after ts) ss := by
  cases h : allNullable ss <;> simp [lookahead, heads_append, allNullable_append, h]

/-- What a rule starts with, its nonterminal starts with. -/
theorem lookahead_parts {x : Nonterminal} (rule : Rule x) {after : List (Option Terminal)}
    {o : Option Terminal} (h : o ∈ lookahead after rule.parts) :
    o ∈ lookahead after [.sub x] := by
  simp only [lookahead, List.mem_append, List.mem_map] at h ⊢
  rcases h with ⟨t, ht, rfl⟩ | h
  · have hfirst := heads_parts rule t ht
    exact Or.inl ⟨t, by simp [heads, hfirst], rfl⟩
  -- the rule derives nothing, so that its nonterminal is nullable
  · cases hparts : allNullable rule.parts with
    | false => simp [hparts] at h
    | true =>
        have hnullable := (rank_parts rule).2 hparts
        exact Or.inr (by simpa [hparts, allNullable, hnullable] using h)

mutual

/-- What comes next where a derivation is followed by more tokens. -/
theorem Derivation.ahead_mem {after : List (Option Terminal)} {rest : List Token}
    (hrest : ahead rest ∈ after) :
    {s : Symbol} → (d : Derivation s) → ahead (d.tokens ++ rest) ∈ lookahead after [s]
  | _, .token t token kind_eq => by simp [Derivation.tokens, lookahead, heads, kind_eq]
  | _, .node rule parts => lookahead_parts rule (parts.ahead_mem hrest)

/-- What comes next where derivations are followed by more tokens. -/
theorem Derivations.ahead_mem {after : List (Option Terminal)} {rest : List Token}
    (hrest : ahead rest ∈ after) :
    {ss : List Symbol} → (ds : Derivations ss) → ahead (ds.tokens ++ rest) ∈ lookahead after ss
  | _, .nil => by simpa [Derivations.tokens, lookahead, heads, allNullable] using hrest
  | _, .cons first later => by
      -- what comes after the first symbol is what the later ones start with
      have hlater := later.ahead_mem hrest
      have hfirst := first.ahead_mem hlater
      rw [← lookahead_append] at hfirst
      simpa [Derivations.tokens, List.append_assoc] using hfirst

end

end Spruce
