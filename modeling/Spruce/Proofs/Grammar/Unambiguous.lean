import Spruce.Proofs.Grammar.Expression

set_option autoImplicit false

/-!
# Every text has one derivation

Outside expressions the rules of a nonterminal are told apart by where the inline tokens stop: an
assignment has its sign there, a declaration or a case construct a brace, and a line with an
expression or a call its end. What is left is a line that is a call, which is a statement and never
gives a body its value: an expression that could be both would have two derivations, and expressions
have one (`statement_tokens_ne`).

Main statement: `Derivation.tokens_injective`.
-/

namespace Spruce

/-! ## Where constructs stop -/

@[simp] theorem stop_cons (t : Token) (rest : List Token) :
    stop (t :: rest) = if t.isInline then stop rest else some t.kind := by
  by_cases h : t.isInline = true
  · rw [if_pos h, stop, List.dropWhile_cons_of_pos h, stop]
  · rw [if_neg h, stop, List.dropWhile_cons_of_neg h, ahead_cons]

/-- An inline construct does not change where a text stops. -/
theorem stop_inline {x : Nonterminal} (hx : x.isInline) (d : Derivation (.sub x))
    (rest : List Token) : stop (d.tokens ++ rest) = stop rest :=
  stop_append (d.isInline_tokens hx)

/-- An assignment stops at its sign. -/
theorem stop_assignment (d : Derivation (.sub .assignment)) (rest : List Token) :
    stop (d.tokens ++ rest) = some .equal ∨ stop (d.tokens ++ rest) = some .colon := by
  match d with
  | .node .assignment (.cons (.node .bindTarget (.cons name (.cons (.token _ _ h) .nil))) _) =>
      left
      simp (disch := decide) [Derivation.tokens, Derivations.tokens, stop_inline, Token.isInline, h,
        Terminal.isInline]
  | .node .assignment (.cons (.node .mutableTarget
      (.cons (.token _ _ h) (.cons name (.cons (.token _ _ h') .nil)))) _) =>
      left
      simp (disch := decide) [Derivation.tokens, Derivations.tokens, stop_inline, Token.isInline, h,
        h', Terminal.isInline]
  | .node .assignment (.cons (.node .updateTarget (.cons name (.cons (.token _ _ h) .nil))) _) =>
      right
      simp (disch := decide) [Derivation.tokens, Derivations.tokens, stop_inline, Token.isInline, h,
        Terminal.isInline]

/-- A function declaration stops at its brace. -/
theorem stop_functionDecl (d : Derivation (.sub .functionDecl)) (rest : List Token) :
    stop (d.tokens ++ rest) = some .leftBrace := by
  match d with
  | .node .functionDecl (.cons name (.cons (.token _ _ h) (.cons names (.cons (.token _ _ h')
      (.cons (.token _ _ h'') _))))) =>
      simp (disch := decide) [Derivation.tokens, Derivations.tokens, stop_inline, Token.isInline, h,
        h', h'', Terminal.isInline]

/-- A data type declaration stops at its brace. -/
theorem stop_typeDecl (d : Derivation (.sub .typeDecl)) (rest : List Token) :
    stop (d.tokens ++ rest) = some .leftBrace := by
  match d with
  | .node .typeDecl (.cons (.token _ _ h) (.cons name (.cons parameters
      (.cons (.token _ _ h') _)))) =>
      simp (disch := decide) [Derivation.tokens, Derivations.tokens, stop_inline, Token.isInline, h,
        h', Terminal.isInline]

/-- A case construct stops at its brace. -/
theorem stop_caseExpr (d : Derivation (.sub .caseExpr)) (rest : List Token) :
    stop (d.tokens ++ rest) = some .leftBrace := by
  match d with
  | .node .caseExpr (.cons (.token _ _ h) (.cons scrutinee (.cons (.token _ _ h') _))) =>
      simp (disch := decide) [Derivation.tokens, Derivations.tokens, stop_inline, Token.isInline, h,
        h', Terminal.isInline]

/-! ## Items, targets and assigned values -/

/-- The rule of an item: its brace or sign, and whether a parenthesis is the second token. -/
def predictItem (tokens : List Token) : Rule .item :=
  if stop tokens = some .leftBrace then
    if ahead tokens.tail = some .leftParen then .functionItem else .typeItem
  else .assignmentItem

theorem determined_item : Determined .item := by
  refine determined_of_predict predictItem fun rule parts rest _ => ?_
  cases rule with
  | functionItem =>
      match parts with
      | .cons d .nil =>
        have hsecond : ahead (d.tokens ++ rest).tail = some .leftParen := by
          match d with
          | .node .functionDecl (.cons name (.cons (.token _ paren hparen) more)) =>
            obtain ⟨t, ht, -⟩ := name.name_tokens
            simp [Derivation.tokens, Derivations.tokens, ht, hparen]
        simp only [Derivations.tokens, List.append_nil]
        rw [predictItem, if_pos (stop_functionDecl d rest), if_pos hsecond]
  | typeItem =>
      match parts with
      | .cons d .nil =>
        have hsecond : ahead (d.tokens ++ rest).tail ≠ some .leftParen := by
          match d with
          | .node .typeDecl (.cons (.token _ keyword _) (.cons name more)) =>
            obtain ⟨t, ht, hkind⟩ := name.name_tokens
            have hne := (Terminal.ne_of_mem_names hkind).1
            simp [Derivation.tokens, Derivations.tokens, ht, hne]
        simp only [Derivations.tokens, List.append_nil]
        rw [predictItem, if_pos (stop_typeDecl d rest), if_neg hsecond]
  | assignmentItem =>
      match parts with
      | .cons d .nil =>
        have hne : stop (d.tokens ++ rest) ≠ some .leftBrace := by
          rcases stop_assignment d rest with h | h <;> simp [h]
        simp only [Derivations.tokens, List.append_nil]
        rw [predictItem, if_neg hne]

/-- The rule of a target, by its second token. -/
def predictTarget (tokens : List Token) : Rule .target :=
  if ahead tokens.tail = some .equal then .bindTarget
  else if ahead tokens.tail = some .colon then .updateTarget
  else .mutableTarget

theorem determined_target : Determined .target := by
  refine determined_of_predict predictTarget fun rule parts rest _ => ?_
  cases rule with
  | bindTarget =>
      match parts with
      | .cons name (.cons (.token _ sign hsign) .nil) =>
        obtain ⟨t, ht, -⟩ := name.name_tokens
        simp [predictTarget, Derivation.tokens, Derivations.tokens, ht, hsign]
  | updateTarget =>
      match parts with
      | .cons name (.cons (.token _ sign hsign) .nil) =>
        obtain ⟨t, ht, -⟩ := name.name_tokens
        simp [predictTarget, Derivation.tokens, Derivations.tokens, ht, hsign]
  | mutableTarget =>
      match parts with
      | .cons (.token _ keyword _) (.cons name more) =>
        obtain ⟨t, ht, hkind⟩ := name.name_tokens
        -- the second token is a name, although the first may be one too
        have hne := (Terminal.ne_of_mem_names hkind).2
        simp [predictTarget, Derivation.tokens, Derivations.tokens, ht, hne]

/-- The rule of an assigned value, by where it stops. -/
def predictAssignedValue (tokens : List Token) : Rule .assignedValue :=
  if stop tokens = some .leftBrace then .caseValue else .expressionValue

/-- Where no inline token can come next, an expression ends. -/
theorem interrupted_of_mem {rest : List Token} {after : List (Option Terminal)}
    (hafter : ∀ o ∈ after, ∀ t ∈ o, t.isInline = false) (hrest : ahead rest ∈ after) :
    Interrupted rest := by
  intro t ht
  exact hafter _ hrest t ht

theorem determined_assignedValue : Determined .assignedValue := by
  refine determined_of_predict predictAssignedValue fun rule parts rest hrest => ?_
  cases rule with
  | caseValue =>
      match parts with
      | .cons d .nil => simp [predictAssignedValue, Derivations.tokens, stop_caseExpr d rest]
  | expressionValue =>
      match parts with
      | .cons d .nil =>
        have hstop : stop rest = ahead rest :=
          (interrupted_of_mem (by decide) hrest).stop_eq
        have hne : ahead rest ≠ some .leftBrace := ahead_ne (by decide) hrest
        simp (disch := decide) [predictAssignedValue, Derivations.tokens, stop_inline, hstop, hne]

/-! ## Statements and trailing expressions -/

/-- The rule of a statement, by where it stops. -/
def predictStatement (tokens : List Token) : Rule .statement :=
  if stop tokens = some .equal ∨ stop tokens = some .colon then .assignmentStatement
  else if stop tokens = some .leftBrace then .caseStatement
  else .callStatement

theorem determined_statement : Determined .statement := by
  refine determined_of_predict predictStatement fun rule parts rest hrest => ?_
  cases rule with
  | assignmentStatement =>
      match parts with
      | .cons d .nil => simp [predictStatement, Derivations.tokens, stop_assignment d rest]
  | callStatement =>
      match parts with
      | .cons d .nil =>
        have hstop : stop rest = ahead rest :=
          (interrupted_of_mem (by decide) hrest).stop_eq
        have hne : ahead rest ≠ some .equal ∧ ahead rest ≠ some .colon ∧
            ahead rest ≠ some .leftBrace :=
          ⟨ahead_ne (by decide) hrest, ahead_ne (by decide) hrest, ahead_ne (by decide) hrest⟩
        simp (disch := decide) [predictStatement, Derivations.tokens, stop_inline, hstop, hne]
  | caseStatement =>
      match parts with
      | .cons d .nil => simp [predictStatement, Derivations.tokens, stop_caseExpr d rest]

/-- A chain of one term. -/
def Derivation.singleTerm (term : Derivation (.sub .term)) : Derivation (.sub .chain) :=
  .node .chain (.cons term (.cons (.node .lastTerm .nil) .nil))

/-- The chain of an expression that gives a body its value. -/
def Derivation.trailingChain : Derivation (.sub .trailing) → Derivation (.sub .chain)
  | .node .chainTrailing (.cons term more) =>
      .node .chain (.cons term (.cons (.node .nextTerms more) .nil))
  | .node .referenceTrailing parts => singleTerm (.node .referenceTerm parts)
  | .node .numberTrailing parts => singleTerm (.node .numberTerm parts)
  | .node .parenthesisedTrailing parts => singleTerm (.node .parenthesisedTerm parts)

@[simp] theorem Derivation.singleTerm_tokens (term : Derivation (.sub .term)) :
    (singleTerm term).tokens = term.tokens :=
  List.append_nil term.tokens

@[simp] theorem Derivation.trailingChain_tokens (d : Derivation (.sub .trailing)) :
    d.trailingChain.tokens = d.tokens := by
  match d with
  | .node .chainTrailing (.cons term more) =>
      exact congrArg (term.tokens ++ ·) (List.append_nil more.tokens)
  | .node .referenceTrailing parts => exact singleTerm_tokens (.node .referenceTerm parts)
  | .node .numberTrailing parts => exact singleTerm_tokens (.node .numberTerm parts)
  | .node .parenthesisedTrailing parts => exact singleTerm_tokens (.node .parenthesisedTerm parts)

/-- The rule by which a chain gives a body its value; none for a lone call. -/
def Derivation.trailingRule? : Derivation (.sub .chain) → Option (Rule .trailing)
  | .node .chain (.cons _ (.cons (.node .nextTerms _) .nil)) => some .chainTrailing
  | .node .chain (.cons (.node .callTerm _) _) => none
  | .node .chain (.cons (.node .referenceTerm _) _) => some .referenceTrailing
  | .node .chain (.cons (.node .numberTerm _) _) => some .numberTrailing
  | .node .chain (.cons (.node .parenthesisedTerm _) _) => some .parenthesisedTrailing

/-- The chain of an expression that gives a body its value tells the rule that was used. -/
theorem Derivation.trailingRule?_trailingChain {rule : Rule .trailing}
    (parts : Derivations rule.parts) :
    trailingRule? (trailingChain (.node rule parts)) = some rule := by
  cases rule with
  | chainTrailing =>
      match parts with
      | .cons term more => rfl
  | referenceTrailing => rfl
  | numberTrailing => rfl
  | parenthesisedTrailing => rfl

theorem Derivation.isInline_tokens_trailing (d : Derivation (.sub .trailing)) :
    ∀ t ∈ d.tokens, t.isInline := by
  rw [← d.trailingChain_tokens]
  exact d.trailingChain.isInline_tokens rfl

/-- Chains with the same tokens are the same. -/
theorem Derivation.chain_eq_of_tokens {d d' : Derivation (.sub .chain)}
    (h : d.tokens = d'.tokens) : d = d' := by
  have hend : d.tokens ++ [] = d'.tokens ++ [] := by rw [h]
  exact (d.eq_of_tokens_inline rfl d' (by decide) (by decide) hend).1

theorem determined_trailing : Determined .trailing := by
  intro rule rule' parts parts' rest rest' hrest hrest' h
  have htokens := (inline_append_inj (Derivation.node rule parts).isInline_tokens_trailing
    (Derivation.node rule' parts').isInline_tokens_trailing
    (interrupted_of_mem (by decide) hrest) (interrupted_of_mem (by decide) hrest') h).1
  have hchain : (Derivation.node rule parts).trailingChain =
      (Derivation.node rule' parts').trailingChain :=
    Derivation.chain_eq_of_tokens (by simpa using htokens)
  have hrule := congrArg Derivation.trailingRule? hchain
  simpa [Derivation.trailingRule?_trailingChain] using hrule

/-- No line is both a statement and an expression that gives a body its value. -/
theorem statement_tokens_ne (statement : Derivation (.sub .statement))
    (trailing : Derivation (.sub .trailing)) {rest rest' : List Token}
    (hrest : ahead rest ∈ Nonterminal.statement.follow)
    (hrest' : ahead rest' ∈ Nonterminal.trailing.follow) :
    statement.tokens ++ rest ≠ trailing.tokens ++ rest' := by
  intro h
  have hline : Interrupted rest := interrupted_of_mem (by decide) hrest
  have hline' : Interrupted rest' := interrupted_of_mem (by decide) hrest'
  have hstop : stop (statement.tokens ++ rest) = ahead rest' := by
    rw [h, stop_append trailing.isInline_tokens_trailing, hline'.stop_eq]
  match statement with
  | .node .assignmentStatement (.cons d .nil) =>
      -- the expression has no sign of an assignment in it
      have hsign := stop_assignment d rest
      simp only [Derivation.tokens, Derivations.tokens, List.append_nil] at hstop
      rw [hstop] at hsign
      revert hrest'
      rcases hsign with hsign | hsign <;> (rw [hsign]; decide)
  | .node .caseStatement (.cons d .nil) =>
      -- nor a brace
      have hbrace := stop_caseExpr d rest
      simp only [Derivation.tokens, Derivations.tokens, List.append_nil] at hstop
      rw [hstop] at hbrace
      revert hrest'
      rw [hbrace]
      decide
  | .node .callStatement (.cons d .nil) =>
      simp only [Derivation.tokens, Derivations.tokens, List.append_nil] at h
      -- both would be derivations of one chain, and a lone call has no rule among `trailing`
      have htokens := (inline_append_inj (d.isInline_tokens rfl)
        trailing.isInline_tokens_trailing hline hline' h).1
      have hchain : Derivation.singleTerm (.node .callTerm (.cons d .nil)) =
          trailing.trailingChain :=
        Derivation.chain_eq_of_tokens (by
          simpa [Derivation.tokens, Derivations.tokens] using htokens)
      obtain ⟨rule, parts⟩ := trailing
      have hrule := congrArg Derivation.trailingRule? hchain
      rw [Derivation.trailingRule?_trailingChain] at hrule
      cases hrule

/-- The same for lines with more after them. -/
theorem Derivations.statement_tokens_ne {ss ss' : List Symbol} {after : List (Option Terminal)}
    (hss : Followed after (.sub .statement :: ss)) (hss' : Followed after (.sub .trailing :: ss'))
    (ds : Derivations (.sub .statement :: ss)) (ds' : Derivations (.sub .trailing :: ss'))
    {rest rest' : List Token} (hrest : ahead rest ∈ after) (hrest' : ahead rest' ∈ after) :
    ds.tokens ++ rest ≠ ds'.tokens ++ rest' := by
  match ds, ds' with
  | .cons statement later, .cons trailing later' =>
      simp only [Derivations.tokens, List.append_assoc]
      exact Spruce.statement_tokens_ne statement trailing (hss.1 _ (later.ahead_mem hrest))
        (hss'.1 _ (later'.ahead_mem hrest'))

theorem determined_bodyLines : Determined .bodyLines := by
  intro rule rule' parts parts' rest rest' hrest hrest' h
  have hoverlap := overlap_of_tokens parts parts' hrest hrest' h
  -- of different rules, only those for a statement and for an expression start alike
  cases rule <;> cases rule' <;> first | rfl | (exfalso; revert hoverlap; decide) | skip
  case trailingLine.statementLine =>
    exact absurd h.symm (Derivations.statement_tokens_ne (followed_parts .statementLine)
      (followed_parts .trailingLine) parts' parts hrest' hrest)
  case statementLine.trailingLine =>
    exact absurd h (Derivations.statement_tokens_ne (followed_parts .statementLine)
      (followed_parts .trailingLine) parts parts' hrest hrest')

theorem determined_armLines : Determined .armLines := by
  intro rule rule' parts parts' rest rest' hrest hrest' h
  have hoverlap := overlap_of_tokens parts parts' hrest hrest' h
  cases rule <;> cases rule' <;> first | rfl | (exfalso; revert hoverlap; decide) | skip
  case trailingArmLine.statementArmLine =>
    exact absurd h.symm (Derivations.statement_tokens_ne (followed_parts .statementArmLine)
      (followed_parts .trailingArmLine) parts' parts hrest' hrest)
  case statementArmLine.trailingArmLine =>
    exact absurd h (Derivations.statement_tokens_ne (followed_parts .statementArmLine)
      (followed_parts .trailingArmLine) parts parts' hrest hrest')

/-! ## All derivations -/

/-- Every nonterminal is determined. -/
theorem determined (x : Nonterminal) : Determined x := by
  by_cases h : x.isPredictive = true
  · exact determined_of_isPredictive h
  · cases x with
    | item => exact determined_item
    | bodyLines => exact determined_bodyLines
    | statement => exact determined_statement
    | target => exact determined_target
    | assignedValue => exact determined_assignedValue
    | trailing => exact determined_trailing
    | armLines => exact determined_armLines
    | term => exact determined_term
    | _ => exact absurd rfl h

/-- Derivations of one nonterminal are the same, and end in the same place, if they have the same
tokens up to what may follow it. -/
theorem Derivation.eq_of_tokens_append {x : Nonterminal} (d d' : Derivation (.sub x))
    {rest rest' : List Token} (hrest : ahead rest ∈ x.follow) (hrest' : ahead rest' ∈ x.follow)
    (h : d.tokens ++ rest = d'.tokens ++ rest') : d = d' ∧ rest = rest' := by
  have hclosed : Closed fun _ => True := by
    intro x _ rule s _
    cases s <;> trivial
  exact d.eq_of_tokens hclosed (fun x _ => determined x) d' trivial hrest hrest' h

/-- Derivations of a nonterminal that may end a text are determined by their tokens. -/
theorem Derivation.tokens_injective {x : Nonterminal} (hx : none ∈ x.follow)
    {d d' : Derivation (.sub x)} (h : d.tokens = d'.tokens) : d = d' := by
  have hend : d.tokens ++ [] = d'.tokens ++ [] := by rw [h]
  exact (d.eq_of_tokens_append d' (by exact hx) (by exact hx) hend).1

end Spruce
