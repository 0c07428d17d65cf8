import Spruce.Proofs.Reference.Acceptance
import Spruce.Proofs.RoundTrip.Equality
import Spruce.Proofs.Token.Layout

set_option autoImplicit false

/-!
# Other tokens that mean the same

What a derivation means depends on nothing but the kinds and texts of its tokens, newlines without
their texts, and spans aside. Tokens that agree in this have the same derivations, with the same
meanings (`Derivation.exists_alike`), one rule at a time (`ruleMeaning_same`).

A sign counts as detached if it belongs to a number and does not touch it. Which tokens are signs of
numbers is told by the rules that they are parts of (`Derivation.roles`), so that the detached signs
can be listed along the tokens (`Derivation.detachedSigns_eq`) and are at the same places in other
tokens that touch where these do (`detachedAmong_alike`).
-/

namespace Spruce

open Reference

/-! ## Meanings that are the same -/

/-- What the meaning of a token depends on. -/
def Token.label (t : Token) : Terminal × Text := (t.kind, bareText t.kind t.text)

/-- What the meanings of tokens depend on. -/
def labels (ts : List Token) : List (Terminal × Text) := ts.map Token.label

/-- Meanings that are the same but for spans and the places of tokens. -/
def Nonterminal.Same : (x : Nonterminal) → x.Meaning → x.Meaning → Prop
  | .program, m, n | .loneExpression, m, n | .item, m, n | .functionDecl, m, n | .typeDecl, m, n
  | .typeOption, m, n | .typeExpr, m, n | .body, m, n | .statement, m, n | .assignment, m, n
  | .target, m, n | .assignedValue, m, n | .trailing, m, n | .caseExpr, m, n | .caseOption, m, n
  | .pattern, m, n | .arm, m, n | .armBody, m, n | .expression, m, n | .term, m, n | .call, m, n
  | .reference, m, n | .number, m, n => Node.equal m n = true
  | .items, ms, ns | .moreItems, ms, ns | .typeOptions, ms, ns | .moreTypeOptions, ms, ns
  | .typeArguments, ms, ns | .typeExprs, ms, ns | .moreTypeExprs, ms, ns | .caseOptions, ms, ns
  | .moreCaseOptions, ms, ns | .callArguments, ms, ns | .arguments, ms, ns
  | .moreArguments, ms, ns => NodesEqual ms ns
  | .bodyLines, m, n | .armLines, m, n | .moreArmLines, m, n =>
      Lines.Equal m (Lines.statements n) (Lines.trailing n)
  | .chain, m, n | .moreChain, m, n => Chain.Equal m (Chain.terms n) (Chain.operators n)
  | .sign, t, u => Token.text t = Token.text u
  | .typeParameters, ss, ss' | .optionalNames, ss, ss' | .names, ss, ss' | .moreNames, ss, ss'
  | .bindings, ss, ss' => ss = ss'
  | .optionalNewline, _, _ => True
  | .operator, o, o' => o = o'
  | .name, s, s' => s = s'

/-- Meanings of a symbol that are the same but for spans and the places of tokens. -/
def Symbol.Same : (s : Symbol) → s.Meaning → s.Meaning → Prop
  | .tok kind, t, u => Token.kind t = kind ∧ Token.label t = Token.label u
  | .sub x, m, n => x.Same m n

/-- Meanings that are the same one by one. -/
def Meanings.Same : {ss : List Symbol} → Meanings ss → Meanings ss → Prop
  | [], _, _ => True
  | s :: _, (m, ms), (n, ns) => s.Same m n ∧ Meanings.Same ms ns

/-- Tokens of a kind other than newlines have the same text if they mean the same. -/
theorem Symbol.Same.text_eq {kind : Terminal} {t u : Token} (h : (Symbol.tok kind).Same t u)
    (hkind : kind ≠ .newline) : t.text = u.text := by
  obtain ⟨rfl, hlabel⟩ := h
  obtain ⟨hkinds, htext⟩ := Prod.mk.inj hlabel
  rwa [bareText, bareText, if_neg hkind, if_neg (hkinds ▸ hkind)] at htext

theorem Symbol.Same.name_eq {kind : Terminal} {t u : Token} (h : (Symbol.tok kind).Same t u)
    (hkind : kind ≠ .newline) : t.name = u.name :=
  congrArg String.ofList (h.text_eq hkind)

/-! ## Rules -/

variable {span span' : Option Span}

theorem numberNode_equal {sign sign' : Text} {number number' : Token} (hsign : sign = sign')
    (hnumber : number.text = number'.text) :
    (numberNode span sign number).equal (numberNode span' sign' number') = true := by
  subst hsign
  rw [numberNode, numberNode, hnumber]
  exact Node.equal_of_fields (equalAll_cons (Value.equal_text _) (equalAll_cons
    (Value.equal_text _) (equalAll_cons (Value.equal_optionalText _) (equalAll_cons
      (Value.equal_optionalText _) rfl))))

/-- Nodes with the same name and names and with an equal node or equal nodes after them. -/
theorem Node.equal_of_names {type : NodeType} {name name' : String} {names names' : List String}
    {v w : Value} (hname : name = name') (hnames : names = names') (h : v.equal w = true) :
    Node.equal ⟨type, span, [.text name, .names names, v]⟩
      ⟨type, span', [.text name', .names names', w]⟩ = true := by
  subst hname hnames
  exact equal_of_fields (equalAll_cons (Value.equal_text _) (equalAll_cons
    (Value.equal_names _) (equalAll_cons h rfl)))

/-- Nodes with equal values in their two fields. -/
theorem Node.equal_of_two {type : NodeType} {v v' w w' : Value} (hv : v.equal v' = true)
    (hw : w.equal w' = true) :
    Node.equal ⟨type, span, [v, w]⟩ ⟨type, span', [v', w']⟩ = true :=
  equal_of_fields (equalAll_cons hv (equalAll_cons hw rfl))

theorem Value.equal_text_of_eq {s s' : String} (h : s = s') :
    (Value.text s).equal (.text s') = true := h ▸ Value.equal_text s

theorem Value.equal_names_of_eq {ss ss' : List String} (h : ss = ss') :
    (Value.names ss).equal (.names ss') = true := h ▸ Value.equal_names ss

/-- A rule makes meanings that are the same of such meanings. -/
theorem ruleMeaning_same {x : Nonterminal} (rule : Rule x) (span span' : Option Span)
    {ms ns : Meanings rule.parts} (h : Meanings.Same ms ns) :
    x.Same (ruleMeaning rule span ms) (ruleMeaning rule span' ns) := by
  cases rule with
  | program => exact Node.equal_of_fields (equalAll_cons h.2.1.equal_nodes rfl)
  | noItems | lastItem | lastTypeOption | noTypeArguments | lastTypeExpr | lastCaseOption
  | noArguments | lastArgument => exact NodesEqual.nil
  | someItems | typeExprs | arguments => exact NodesEqual.cons h.1 h.2.1
  | typeOptions | caseOptions => exact NodesEqual.cons h.1 h.2.2.1
  | noNewline | newline => trivial
  | functionDecl => exact Node.equal_of_names h.1 h.2.2.1 h.2.2.2.2.2.2.1
  | typeDecl => exact Node.equal_of_names h.2.1 h.2.2.1 h.2.2.2.2.2.1.equal_nodes
  | noTypeParameters | noNames | lastName | noBindings => rfl
  | names => exact congrArg₂ List.cons h.1 h.2.1
  | typeOption | typeExpr =>
      exact Node.equal_of_two (Value.equal_text_of_eq h.1) h.2.1.equal_nodes
  | body | armBody => exact Lines.Equal.node h.1
  | noLines | noArmLines | lastArmLine => exact ⟨NodesEqual.nil, trivial⟩
  | trailingLine | trailingArmLine => exact ⟨NodesEqual.nil, h.1⟩
  | statementLine => exact ⟨NodesEqual.cons h.1 h.2.2.1.1, h.2.2.1.2⟩
  | statementArmLine => exact ⟨NodesEqual.cons h.1 h.2.1.1, h.2.1.2⟩
  | assignment => exact Node.equal_of_two h.1 h.2.1
  | caseOption => exact Node.equal_of_two h.1 h.2.2.1
  | bindTarget | updateTarget =>
      exact Node.equal_of_two (Value.equal_targetKind _) (Value.equal_text_of_eq h.1)
  | mutableTarget =>
      exact Node.equal_of_two (Value.equal_targetKind _) (Value.equal_text_of_eq h.2.1)
  | caseExpr => exact Node.equal_of_two h.2.1 h.2.2.2.2.1.equal_nodes
  | pattern => exact Node.equal_of_two (Value.equal_text_of_eq h.1) (Value.equal_names_of_eq h.2.1)
  | chainTrailing =>
      exact Chain.Equal.node
        ⟨NodesEqual.cons h.1 h.2.2.1.1, congrArg₂ List.cons h.2.1 h.2.2.1.2⟩
  | referenceTrailing | numberTrailing =>
      exact Chain.Equal.node ⟨NodesEqual.cons h.1 NodesEqual.nil, rfl⟩
  | parenthesisedTrailing => exact Chain.Equal.node ⟨NodesEqual.cons h.2.1 NodesEqual.nil, rfl⟩
  | expression => exact Chain.Equal.node h.1
  | chain => exact ⟨NodesEqual.cons h.1 h.2.1.1, h.2.1.2⟩
  | lastTerm => exact ⟨NodesEqual.nil, rfl⟩
  | nextTerms => exact ⟨h.2.1.1, congrArg₂ List.cons h.1 h.2.1.2⟩
  | call => exact Node.equal_of_two (Value.equal_text_of_eq h.1) h.2.2.1.equal_nodes
  | reference => exact Node.equal_of_fields (equalAll_cons (Value.equal_text_of_eq h.1) rfl)
  | unsignedNumber => exact numberNode_equal rfl (Symbol.Same.text_eq h.1 (by decide))
  | signedNumber => exact numberNode_equal h.1 (Symbol.Same.text_eq h.2.1 (by decide))
  | plusSign | minusSign => exact Symbol.Same.text_eq h.1 (by decide)
  | addOperator | subtractOperator | multiplyOperator | divideOperator | powerOperator
  | moduloOperator | equalOperator | notEqualOperator | lessEqualOperator
  | greaterEqualOperator | lessOperator | greaterOperator => rfl
  | identifierName | typeName | caseName | mutName => exact Symbol.Same.name_eq h.1 (by decide)
  | nextItems | nextNames | nextTypeExprs | nextArguments | nextArmLines => exact h.2.1
  | loneExpression | typeArguments | bindings | typeParameters | parenthesisedTerm => exact h.2.1
  | functionItem | typeItem | assignmentItem | someNames | nextTypeOptions | assignmentStatement
  | callStatement | caseStatement | caseValue | expressionValue | nextCaseOptions | expressionArm
  | callTerm | referenceTerm | numberTerm | someArguments => exact h.1
  | bodyArm => exact h.2.2.1

/-! ## The rules that tokens are parts of -/

mutual

/-- For each token of a derivation the nonterminal of the rule that it is a part of, given that of
the rule that the derivation is a part of. -/
def Derivation.roles : (x : Nonterminal) → {s : Symbol} → Derivation s → List Nonterminal
  | x, _, .token _ _ _ => [x]
  | _, .sub y, .node _ parts => parts.roles y
termination_by structural _ _ d => d

/-- The same for the tokens of some derivations, one after another. -/
def Derivations.roles (x : Nonterminal) : {ss : List Symbol} → Derivations ss → List Nonterminal
  | _, .nil => []
  | _, .cons first rest => first.roles x ++ rest.roles x
termination_by structural _ ds => ds

end

mutual

theorem Derivation.roles_length (x : Nonterminal) : {s : Symbol} → (d : Derivation s) →
    (d.roles x).length = d.tokens.length
  | _, .token _ _ _ => rfl
  | .sub y, .node _ parts => parts.roles_length y

theorem Derivations.roles_length (x : Nonterminal) : {ss : List Symbol} → (ds : Derivations ss) →
    (ds.roles x).length = ds.tokens.length
  | _, .nil => rfl
  | _, .cons first rest => by
      rw [Derivations.roles, Derivations.tokens, List.length_append, List.length_append,
        first.roles_length, rest.roles_length]

end

theorem labels_append (ts us : List Token) : labels (ts ++ us) = labels ts ++ labels us :=
  List.map_append

variable {filename filename' : Option String}

mutual

/-- Tokens that mean the same have the same derivations, which mean the same. -/
theorem Derivation.exists_alike (filename filename' : Option String) : {s : Symbol} →
    (d : Derivation s) → {ts : List Token} → labels ts = labels d.tokens →
      ∃ d' : Derivation s, d'.tokens = ts ∧ (∀ x, d'.roles x = d.roles x) ∧
        s.Same (d'.understand filename').meaning (d.understand filename).meaning
  | _, .token t token kind_eq, ts, h => by
      obtain ⟨token', rfl⟩ : ∃ token', ts = [token'] :=
        List.length_eq_one_iff.1
          (by simpa [labels, Derivation.tokens] using congrArg List.length h)
      have hlabel : token'.label = token.label := by simpa [labels, Derivation.tokens] using h
      have hkind : token'.kind = t := (Prod.mk.inj hlabel).1.trans kind_eq
      exact ⟨.token t token' hkind, rfl, fun _ => rfl, hkind, hlabel⟩
  | .sub x, .node rule parts, ts, h => by
      obtain ⟨parts', rfl, hroles, hsame⟩ := parts.exists_alike filename filename' h
      exact ⟨.node rule parts', rfl, fun _ => hroles x, ruleMeaning_same rule _ _ hsame⟩

theorem Derivations.exists_alike (filename filename' : Option String) : {ss : List Symbol} →
    (ds : Derivations ss) → {ts : List Token} → labels ts = labels ds.tokens →
      ∃ ds' : Derivations ss, ds'.tokens = ts ∧ (∀ x, ds'.roles x = ds.roles x) ∧
        Meanings.Same (ds'.understand filename').meanings (ds.understand filename).meanings
  | _, .nil, ts, h => by
      obtain rfl : ts = [] := List.map_eq_nil_iff.1 h
      exact ⟨.nil, rfl, fun _ => rfl, trivial⟩
  | _, .cons first rest, ts, h => by
      rw [Derivations.tokens, labels_append] at h
      obtain ⟨ts₁, ts₂, rfl, h₁, h₂⟩ := List.map_eq_append_iff.1 h
      obtain ⟨first', rfl, hroles₁, hsame₁⟩ := first.exists_alike filename filename' h₁
      obtain ⟨rest', rfl, hroles₂, hsame₂⟩ := rest.exists_alike filename filename' h₂
      refine ⟨.cons first' rest', rfl, fun x => ?_, hsame₁, hsame₂⟩
      rw [Derivations.roles, Derivations.roles, hroles₁, hroles₂]

end

/-! ## Signs of numbers along tokens -/

/-- The signs of numbers among some tokens with the given roles that do not touch the number after
them. -/
def detachedAmong : List Nonterminal → List Token → List Token
  | role :: roles, t :: ts =>
      (if role = .sign ∧ t.touches ts = false then [t] else []) ++ detachedAmong roles ts
  | _, _ => []

theorem detachedAmong_append {roles roles' : List Nonterminal} {ts ts' : List Token}
    (hlength : roles.length = ts.length) (hlast : ∀ role ∈ roles.getLast?, role ≠ .sign) :
    detachedAmong (roles ++ roles') (ts ++ ts') =
      detachedAmong roles ts ++ detachedAmong roles' ts' := by
  induction roles generalizing ts with
  | nil =>
      obtain rfl : ts = [] := List.length_eq_zero_iff.1 hlength.symm
      rfl
  | cons role roles ih =>
      obtain ⟨t, ts, rfl⟩ := List.exists_cons_of_length_eq_add_one hlength.symm
      have hlater : detachedAmong (roles ++ roles') (ts ++ ts') =
          detachedAmong roles ts ++ detachedAmong roles' ts' := by
        refine ih (Nat.succ.inj hlength) fun r hr => hlast r ?_
        obtain ⟨before, rfl⟩ := List.getLast?_eq_some_iff.1 hr
        rw [← List.cons_append, List.getLast?_concat]
        rfl
      rw [List.cons_append, List.cons_append, detachedAmong, detachedAmong, hlater,
        List.append_assoc]
      congr 1
      -- the last token may touch what comes next, but it is no sign of a number
      cases ts with
      | nil =>
          obtain rfl : roles = [] := List.length_eq_zero_iff.1 (Nat.succ.inj hlength)
          have hrole : role ≠ .sign := hlast role rfl
          simp [hrole]
      | cons u ts => rfl

/-- Only numbers have signs among the parts of their rules. -/
theorem sign_not_mem_parts {x : Nonterminal} (hx : x ≠ .number) (rule : Rule x) :
    ∀ s ∈ rule.parts, s ≠ .sub .sign := by
  cases rule <;> first | exact absurd rfl hx | decide

mutual

/-- The last token of a derivation is no sign of a number, unless it is the whole. -/
theorem Derivation.last_role_ne {x : Nonterminal} (hx : x ≠ .sign) : {s : Symbol} →
    (d : Derivation s) → s ≠ .sub .sign → ∀ role ∈ (d.roles x).getLast?, role ≠ .sign
  | _, .token _ _ _, _, role, h => by
      obtain rfl := Option.some.inj h
      exact hx
  | .sub y, .node rule parts, hs, role, h => by
      have hy : y ≠ .sign := fun h => hs (congrArg Symbol.sub h)
      by_cases hnumber : y = .number
      · subst hnumber
        match rule, parts with
        | .unsignedNumber, .cons (.token _ _ _) .nil =>
            obtain rfl := Option.some.inj h
            exact hy
        | .signedNumber, .cons (.node .plusSign (.cons (.token _ _ _) .nil))
            (.cons (.token _ _ _) .nil) =>
            obtain rfl := Option.some.inj h
            exact hy
        | .signedNumber, .cons (.node .minusSign (.cons (.token _ _ _) .nil))
            (.cons (.token _ _ _) .nil) =>
            obtain rfl := Option.some.inj h
            exact hy
      · exact parts.last_role_ne hy (sign_not_mem_parts hnumber rule) role h

theorem Derivations.last_role_ne {x : Nonterminal} (hx : x ≠ .sign) : {ss : List Symbol} →
    (ds : Derivations ss) → (∀ s ∈ ss, s ≠ .sub .sign) →
      ∀ role ∈ (ds.roles x).getLast?, role ≠ .sign
  | _, .nil, _, role, h => absurd h (Option.not_mem_none role)
  | _, .cons first rest, hss, role, h => by
      obtain ⟨hs, hlater⟩ := List.forall_mem_cons.1 hss
      rw [Derivations.roles, List.getLast?_append, Option.mem_def, Option.or_eq_some_iff] at h
      rcases h with h | ⟨-, h⟩
      · exact rest.last_role_ne hx hlater role h
      · exact first.last_role_ne hx hs role h

end

/-- The sign of a number is detached just when it does not touch the digits. -/
theorem detachedSign_eq {sign digits : Token} (hsign : sign.kind.isPlusOrMinus = true)
    (hdigits : digits.kind = .number) :
    Phrase.detachedSign [sign, digits] = detachedAmong [.sign, .number] [sign, digits] := by
  by_cases h : sign.stop = digits.start.offset <;>
    simp [Phrase.detachedSign, detachedAmong, Token.touches, hsign, hdigits, h]

mutual

/-- The detached signs of a derivation are those among its tokens. -/
theorem Derivation.detachedSigns_eq {x : Nonterminal} (hx : x ≠ .sign) : {s : Symbol} →
    (d : Derivation s) → s ≠ .sub .sign →
      d.phrase.detachedSigns = detachedAmong (d.roles x) d.tokens
  | _, .token _ _ _, _ => by
      rw [Derivation.roles, Derivation.tokens, detachedAmong, if_neg fun h => hx h.1]
      rfl
  | .sub y, .node rule parts, hs => by
      have hy : y ≠ .sign := fun h => hs (congrArg Symbol.sub h)
      by_cases hnumber : y = .number
      · subst hnumber
        match rule, parts with
        | .unsignedNumber, .cons (.token _ _ _) .nil => rfl
        | .signedNumber, .cons (.node .plusSign (.cons (.token _ sign hsign) .nil))
            (.cons (.token _ digits hdigits) .nil) =>
            exact detachedSign_eq (by rw [hsign]; rfl) hdigits
        | .signedNumber, .cons (.node .minusSign (.cons (.token _ sign hsign) .nil))
            (.cons (.token _ digits hdigits) .nil) =>
            exact detachedSign_eq (by rw [hsign]; rfl) hdigits
      · exact (ruleImage_detachedSigns hnumber rule parts.phrases).trans
          (parts.detachedSigns_eq hy (sign_not_mem_parts hnumber rule))

theorem Derivations.detachedSigns_eq {x : Nonterminal} (hx : x ≠ .sign) : {ss : List Symbol} →
    (ds : Derivations ss) → (∀ s ∈ ss, s ≠ .sub .sign) →
      ds.phrases.detachedSigns = detachedAmong (ds.roles x) ds.tokens
  | _, .nil, _ => rfl
  | _, .cons first rest, hss => by
      obtain ⟨hs, hlater⟩ := List.forall_mem_cons.1 hss
      rw [Derivations.roles, Derivations.tokens,
        detachedAmong_append (first.roles_length x) (first.last_role_ne hx hs),
        ← first.detachedSigns_eq hx hs, ← rest.detachedSigns_eq hx hlater]
      exact Images.detachedSigns_cons _

end

/-! ## Tokens that are alike -/

theorem labels_eq_of_bare {ts us : List Token} (h : bare ts = bare us) : labels ts = labels us := by
  have hmap : ∀ ts, labels ts = (bare ts).map fun b => (b.kind, b.text) := by
    intro ts
    induction ts with
    | nil => rfl
    | cons t ts ih => exact congrArg (t.label :: ·) ih
  rw [hmap, hmap, h]

theorem kinds_eq_of_labels {ts us : List Token} (h : labels ts = labels us) :
    kinds ts = kinds us := by
  have hmap : ∀ ts, kinds ts = (labels ts).map Prod.fst := by
    intro ts
    rw [labels, List.map_map]
    rfl
  rw [hmap, hmap, h]

/-- In tokens that are alike no sign is detached, or the first that is detached is at the same
place. -/
theorem detachedAmong_alike {ts us : List Token} (h : bare ts = bare us)
    (roles : List Nonterminal) :
    (detachedAmong roles ts = [] ∧ detachedAmong roles us = []) ∨
      ∃ (i : Nat) (t u : Token), (detachedAmong roles ts).head? = some t ∧
        (detachedAmong roles us).head? = some u ∧ ts[i]? = some t ∧ us[i]? = some u := by
  induction roles generalizing ts us with
  | nil => exact .inl ⟨rfl, rfl⟩
  | cons role roles ih =>
      cases ts with
      | nil =>
          obtain rfl : us = [] := by
            cases us with
            | nil => rfl
            | cons u us => simp [bare] at h
          exact .inl ⟨rfl, rfl⟩
      | cons t ts =>
          cases us with
          | nil => simp [bare] at h
          | cons u us =>
              obtain ⟨hhead, htail⟩ := List.cons.inj h
              have htouches : t.touches ts = u.touches us := congrArg BareToken.touches hhead
              rw [detachedAmong, detachedAmong, htouches]
              by_cases hdetached : role = .sign ∧ u.touches us = false
              · rw [if_pos hdetached, if_pos hdetached]
                exact .inr ⟨0, t, u, rfl, rfl, rfl, rfl⟩
              · rw [if_neg hdetached, if_neg hdetached, List.nil_append, List.nil_append]
                rcases ih htail with hnone | ⟨i, t', u', ht', hu', hget, hget'⟩
                · exact .inl hnone
                · exact .inr ⟨i + 1, t', u', ht', hu', hget, hget'⟩

theorem detachedAmong_eq_nil_of_bare {ts us : List Token} (h : bare ts = bare us)
    {roles : List Nonterminal} (hnone : detachedAmong roles ts = []) :
    detachedAmong roles us = [] := by
  rcases detachedAmong_alike h roles with ⟨-, hnone'⟩ | ⟨i, t, u, ht, -⟩
  · exact hnone'
  · rw [hnone] at ht
    simp at ht

/-- The nonterminal of the rule that each token of a derivation of a whole text is a part of. -/
def Start.roles {start : Start} (d : Derivation start.goal) : List Nonterminal :=
  Derivation.roles start.nonterminal d

/-- The roles of tokens in two parts are in two parts. -/
theorem Start.exists_roles_append {start : Start} (d : Derivation start.goal)
    {before after : List Token} (htokens : d.tokens = before ++ after) :
    ∃ roles roles', Start.roles d = roles ++ roles' ∧ roles.length = before.length ∧
      roles'.length = after.length := by
  have hlength : (Start.roles d).length = before.length + after.length := by
    rw [Start.roles, Derivation.roles_length, htokens, List.length_append]
  refine ⟨_, _, (List.take_append_drop before.length _).symm, ?_, ?_⟩
  · rw [List.length_take, hlength]
    exact Nat.min_eq_left (Nat.le_add_right _ _)
  · rw [List.length_drop, hlength]
    exact Nat.add_sub_cancel_left _ _

theorem Start.detachedSigns_phrase {start : Start} (d : Derivation start.goal) :
    (start.phrase d).detachedSigns = detachedAmong (Start.roles d) d.tokens := by
  cases start with
  | program => exact Derivation.detachedSigns_eq (by decide) d (by decide)
  | expression => exact Derivation.detachedSigns_eq (by decide) d (by decide)

/-- A text is accepted if its tokens mean the same as those of some derivation and none of the signs
of numbers in it are detached; its tree is then equal to the meaning of the derivation. -/
theorem parse_of_labels {start : Start} {text : Text} (d : Derivation start.goal)
    (hrest : (lex text).rest = []) (hlabels : labels (lex text).tokens = labels d.tokens)
    (htight : detachedAmong (Start.roles d) (lex text).tokens = []) :
    ∃ n, (parse start filename' text).outcome = .ok n ∧
      n.equal (start.node (d.understand filename).meaning) = true := by
  obtain ⟨d', htokens, hroles, hsame⟩ :=
    d.exists_alike filename filename' hlabels
  refine ⟨start.node (d'.understand filename').meaning, parse_eq_ok_iff.2
    ⟨hrest, d', htokens, ?_, rfl⟩, ?_⟩
  · rw [Start.detachedSigns_phrase, Start.roles, hroles, htokens]
    exact htight
  · cases start with
    | program => exact hsame
    | expression => exact hsame

end Spruce
