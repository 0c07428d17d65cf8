import Spruce.Proofs.Grammar.Uniqueness

set_option autoImplicit false

/-!
# Expressions have one derivation

An expression is written on one line and without braces, so all its tokens are of the kinds that
`Terminal.isInline` holds of, and the first token of another kind ends it (`stop`). Names, patterns
and the like share this (`Nonterminal.isInline`), and among them a second token decides where the
first does not: a name is a call if a parenthesis comes next (`determined_term`).

Main statement: `Derivation.eq_of_tokens_inline`.
-/

namespace Spruce

/-! ## Inline tokens -/

/-- The kinds of token that expressions, patterns and lists of names are made of. -/
def Terminal.isInline : Terminal → Bool
  | .newline | .arrow | .leftBrace | .rightBrace | .colon | .equal => false
  | _ => true

/-- Nonterminals of expressions, type expressions, patterns and names. -/
def Nonterminal.isInline : Nonterminal → Bool
  | .typeParameters | .optionalNames | .names | .moreNames | .typeOption | .typeArguments
  | .typeExprs | .moreTypeExprs | .typeExpr | .pattern | .bindings | .expression | .chain
  | .moreChain | .term | .call | .callArguments | .arguments | .moreArguments | .reference
  | .number | .sign | .operator | .name => true
  | _ => false

/-- Inline symbols. -/
def Symbol.isInline : Symbol → Bool
  | .tok t => t.isInline
  | .sub x => x.isInline

/-- An inline nonterminal is made of inline symbols. -/
theorem isInline_parts {x : Nonterminal} (hx : x.isInline) (rule : Rule x) :
    ∀ s ∈ rule.parts, s.isInline := by
  cases rule <;> first | exact absurd hx (by decide) | decide

/-- Inline tokens. -/
def Token.isInline (t : Token) : Bool := t.kind.isInline

mutual

/-- All tokens of an inline symbol are inline. -/
theorem Derivation.isInline_tokens : {s : Symbol} → (d : Derivation s) → s.isInline →
    ∀ t ∈ d.tokens, t.isInline
  | _, .token _ token kind_eq, hs => by
      intro t ht
      rw [Derivation.tokens, List.mem_singleton] at ht
      rw [ht, Token.isInline, kind_eq]
      exact hs
  | _, .node rule parts, hs => parts.isInline_tokens (isInline_parts hs rule)

/-- All tokens of inline symbols are inline. -/
theorem Derivations.isInline_tokens : {ss : List Symbol} → (ds : Derivations ss) →
    (∀ s ∈ ss, s.isInline) → ∀ t ∈ ds.tokens, t.isInline
  | _, .nil, _ => fun t ht => absurd ht List.not_mem_nil
  | _, .cons first later, hss => by
      intro t ht
      rw [Derivations.tokens, List.mem_append] at ht
      rcases ht with ht | ht
      · exact first.isInline_tokens (hss _ List.mem_cons_self) t ht
      · exact later.isInline_tokens (fun s hs => hss s (List.mem_cons_of_mem _ hs)) t ht

end

/-! ## Where inline tokens stop -/

/-- The kind of the first token that is not inline. -/
def stop (tokens : List Token) : Option Terminal := ahead (tokens.dropWhile Token.isInline)

/-- Inline tokens do not change where a text stops. -/
theorem stop_append {ts rest : List Token} (hts : ∀ t ∈ ts, t.isInline) :
    stop (ts ++ rest) = stop rest := by
  rw [stop, List.dropWhile_append_of_pos hts, stop]

/-- No inline token comes next. -/
def Interrupted (rest : List Token) : Prop := ∀ t ∈ ahead rest, t.isInline = false

/-- Where no inline token comes next, nothing is dropped. -/
theorem Interrupted.dropWhile {rest : List Token} (h : Interrupted rest) :
    rest.dropWhile Token.isInline = rest := by
  cases rest with
  | nil => rfl
  | cons t rest =>
      have ht : ¬ t.isInline = true := by
        rw [Token.isInline, h t.kind rfl]
        decide
      rw [List.dropWhile_cons_of_neg ht]

theorem Interrupted.stop_eq {rest : List Token} (h : Interrupted rest) :
    stop rest = ahead rest := by
  rw [stop, h.dropWhile]

/-- Two inline beginnings of one text are the same if neither can go on. -/
theorem inline_append_inj {ts ts' rest rest' : List Token} (hts : ∀ t ∈ ts, t.isInline)
    (hts' : ∀ t ∈ ts', t.isInline) (hrest : Interrupted rest) (hrest' : Interrupted rest')
    (h : ts ++ rest = ts' ++ rest') : ts = ts' ∧ rest = rest' := by
  have hdrop := congrArg (List.dropWhile Token.isInline) h
  rw [List.dropWhile_append_of_pos hts, List.dropWhile_append_of_pos hts', hrest.dropWhile,
    hrest'.dropWhile] at hdrop
  -- both texts go on alike where the inline tokens end
  subst hdrop
  exact ⟨List.append_cancel_right h, rfl⟩

/-! ## One token more -/

/-- A name is a single token. -/
theorem Derivation.name_tokens (d : Derivation (.sub .name)) :
    ∃ t : Token, d.tokens = [t] ∧ t.kind ∈ Terminal.names := by
  match d with
  | .node .identifierName (.cons (.token _ t h) .nil) => exact ⟨t, rfl, by rw [h]; decide⟩
  | .node .typeName (.cons (.token _ t h) .nil) => exact ⟨t, rfl, by rw [h]; decide⟩
  | .node .caseName (.cons (.token _ t h) .nil) => exact ⟨t, rfl, by rw [h]; decide⟩
  | .node .mutName (.cons (.token _ t h) .nil) => exact ⟨t, rfl, by rw [h]; decide⟩

/-- A name is none of the symbols that may come after it. -/
theorem Terminal.ne_of_mem_names {t : Terminal} (h : t ∈ names) :
    t ≠ leftParen ∧ t ≠ equal ∧ t ≠ colon := by
  revert t
  decide

/-- The rule of a term, by the first two tokens. -/
def predictTerm (tokens : List Token) : Rule .term :=
  if ahead tokens = some .leftParen then .parenthesisedTerm
  else if (ahead tokens).any (· ∈ Terminal.names) then
    if ahead tokens.tail = some .leftParen then .callTerm else .referenceTerm
  else .numberTerm

theorem determined_term : Determined .term := by
  refine determined_of_predict predictTerm fun rule parts rest hrest => ?_
  cases rule with
  | callTerm =>
      match parts with
      | .cons (.node .call (.cons name (.cons (.token _ paren hparen) more))) .nil =>
        obtain ⟨t, ht, hkind⟩ := name.name_tokens
        have hne := (Terminal.ne_of_mem_names hkind).1
        simp [predictTerm, Derivations.tokens, Derivation.tokens, ht, hparen, hkind, hne]
  | referenceTerm =>
      match parts with
      | .cons (.node .reference (.cons name .nil)) .nil =>
        obtain ⟨t, ht, hkind⟩ := name.name_tokens
        have hne := (Terminal.ne_of_mem_names hkind).1
        -- no term has a parenthesis after it
        have hnext : ahead rest ≠ some .leftParen := ahead_ne (by decide) hrest
        simp [predictTerm, Derivations.tokens, Derivation.tokens, ht, hkind, hne, hnext]
  | numberTerm =>
      have hnumber : ∀ o ∈ lookahead Nonterminal.term.follow (Rule.parts .numberTerm),
          o ≠ some .leftParen ∧ o.any (· ∈ Terminal.names) = false := by decide
      obtain ⟨hparen, hname⟩ := hnumber _ (parts.ahead_mem hrest)
      rw [predictTerm, if_neg hparen, hname]
      rfl
  | parenthesisedTerm =>
      match parts with
      | .cons (.token _ paren hparen) more =>
        simp [predictTerm, Derivations.tokens, Derivation.tokens, hparen]

/-! ## Expressions -/

/-- Every inline nonterminal is determined. -/
theorem determined_of_isInline {x : Nonterminal} (hx : x.isInline) : Determined x := by
  by_cases h : x.isPredictive = true
  · exact determined_of_isPredictive h
  -- only for a term one token does not decide
  · obtain rfl : x = .term := by
      cases x <;> first | rfl | exact absurd hx (by decide) | exact absurd (by decide) h
    exact determined_term

theorem closed_isInline : Closed fun x => x.isInline := by
  intro x hx rule s hs
  have hinline := isInline_parts hx rule s hs
  cases s with
  | tok t => trivial
  | sub y => exact hinline

/-- An inline nonterminal has one derivation of given tokens, and it ends in one place. -/
theorem Derivation.eq_of_tokens_inline {x : Nonterminal} (hx : x.isInline)
    (d d' : Derivation (.sub x)) {rest rest' : List Token} (hrest : ahead rest ∈ x.follow)
    (hrest' : ahead rest' ∈ x.follow) (h : d.tokens ++ rest = d'.tokens ++ rest') :
    d = d' ∧ rest = rest' :=
  d.eq_of_tokens closed_isInline (fun _ => determined_of_isInline) d' hx hrest hrest' h

end Spruce
