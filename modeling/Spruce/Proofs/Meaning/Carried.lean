import Spruce.Proofs.Meaning.Alike
import Spruce.Proofs.Tree.Names

set_option autoImplicit false

/-!
# Derivations carried over to other tokens

Tokens are carried over to others when each gives way to one of the same kind, or an identifier to
a keyword (`Carries`). A derivation is carried over with its tokens (`Derivation.exists_carried`),
as a name may be any word. If maps of trees agree on what the two sides of each token leave in a
tree, they agree on the meanings, one rule at a time (`ruleMeaning_agree`).

Main definitions: `Nonterminal.Agree`, when maps agree on two meanings; `Carries`.
-/

namespace Spruce

/-! ## Values on which two maps agree -/

/-- What one map makes of the first value, the other makes of the second. -/
def Value.Agree (φ ψ : TreeMap) (v w : Value) : Prop := v.map φ = w.map ψ

section

variable {φ ψ : TreeMap}

theorem agree_nodes {ms ns : List Node} (h : ms.map (Node.map φ) = ns.map (Node.map ψ)) :
    Value.Agree φ ψ (.nodes ms) (.nodes ns) := by
  rw [Value.Agree, map_nodes, map_nodes, h]

theorem agree_names {ss ss' : List String} (h : ss.map φ.name = ss'.map ψ.name) :
    Value.Agree φ ψ (.names ss) (.names ss') := by
  rw [Value.Agree, map_names, map_names, h]

theorem agree_text {s s' : String} (h : φ.name s = ψ.name s') :
    Value.Agree φ ψ (.text s) (.text s') := congrArg Value.text h

theorem agree_node {m n : Node} (h : m.map φ = n.map ψ) : Value.Agree φ ψ (.node m) (.node n) :=
  congrArg Value.node h

theorem agree_optionalNode {m n : Option Node}
    (h : m.map (Node.map φ) = n.map (Node.map ψ)) :
    Value.Agree φ ψ (.optionalNode m) (.optionalNode n) := by
  rw [Value.Agree, map_optionalNode, map_optionalNode, h]

theorem agree_operators {os os' : List Operator} (h : os = os') :
    Value.Agree φ ψ (.operators os) (.operators os') := by
  rw [Value.Agree, map_operators, map_operators, h]

/-- Maps agree on nodes of a type if they do on their spans and fields. -/
theorem agree_of_fields {type : NodeType} (htype : type ≠ .number) {span span' : Option Span}
    {fields fields' : List Value} (hspan : φ.span span = ψ.span span')
    (h : List.Forall₂ (Value.Agree φ ψ) fields fields') :
    (⟨type, span, fields⟩ : Node).map φ = (⟨type, span', fields'⟩ : Node).map ψ := by
  have hfields : fields.map (Value.map φ) = fields'.map (Value.map ψ) := by
    induction h with
    | nil => rfl
    | cons hfirst _ ih => exact congrArg₂ List.cons hfirst ih
  rw [Node.map_of_type φ htype, Node.map_of_type ψ htype, hspan, hfields]

end

/-! ## Meanings on which two maps agree -/

/-- What one map makes of the first meaning, the other makes of the second. -/
def Nonterminal.Agree (φ ψ : TreeMap) : (x : Nonterminal) → x.Meaning → x.Meaning → Prop
  | .program, m, n | .loneExpression, m, n | .item, m, n | .functionDecl, m, n | .typeDecl, m, n
  | .typeOption, m, n | .typeExpr, m, n | .body, m, n | .statement, m, n | .assignment, m, n
  | .target, m, n | .assignedValue, m, n | .trailing, m, n | .caseExpr, m, n | .caseOption, m, n
  | .pattern, m, n | .arm, m, n | .armBody, m, n | .expression, m, n | .term, m, n | .call, m, n
  | .reference, m, n | .number, m, n => Node.map φ m = Node.map ψ n
  | .items, ms, ns | .moreItems, ms, ns | .typeOptions, ms, ns | .moreTypeOptions, ms, ns
  | .typeArguments, ms, ns | .typeExprs, ms, ns | .moreTypeExprs, ms, ns | .caseOptions, ms, ns
  | .moreCaseOptions, ms, ns | .callArguments, ms, ns | .arguments, ms, ns
  | .moreArguments, ms, ns => List.map (Node.map φ) ms = List.map (Node.map ψ) ns
  | .bodyLines, m, n | .armLines, m, n | .moreArmLines, m, n =>
      (Lines.statements m).map (Node.map φ) = (Lines.statements n).map (Node.map ψ) ∧
        (Lines.trailing m).map (Node.map φ) = (Lines.trailing n).map (Node.map ψ)
  | .chain, m, n | .moreChain, m, n =>
      (Chain.terms m).map (Node.map φ) = (Chain.terms n).map (Node.map ψ) ∧
        Chain.operators m = Chain.operators n
  | .sign, t, u => Token.text t = Token.text u
  | .typeParameters, ss, ss' | .optionalNames, ss, ss' | .names, ss, ss' | .moreNames, ss, ss'
  | .bindings, ss, ss' => List.map φ.name ss = List.map ψ.name ss'
  | .optionalNewline, _, _ => True
  | .operator, o, o' => o = o'
  | .name, s, s' => φ.name s = ψ.name s'

/-- The kinds of token whose texts are written into the nodes of numbers. -/
def Terminal.isNumeric (t : Terminal) : Bool := t = .number || t.isPlusOrMinus

/-- What one map makes of what the first meaning of a symbol leaves in a tree, the other makes of
what the second leaves. -/
def Symbol.Agree (φ ψ : TreeMap) : (s : Symbol) → s.Meaning → s.Meaning → Prop
  | .tok kind, t, u =>
      φ.name (Token.name t) = ψ.name (Token.name u) ∧
        (kind.isNumeric = true → Token.text t = Token.text u)
  | .sub x, m, n => x.Agree φ ψ m n

/-- The same of meanings one by one. -/
def Meanings.Agree (φ ψ : TreeMap) : {ss : List Symbol} → Meanings ss → Meanings ss → Prop
  | [], _, _ => True
  | s :: _, (m, ms), (n, ns) => s.Agree φ ψ m n ∧ Meanings.Agree φ ψ ms ns

/-! ## Rules -/

section

variable {φ ψ : TreeMap} {span span' : Option Span}

theorem map_cons_eq {m n : Node} {ms ns : List Node} (h : m.map φ = n.map ψ)
    (hs : ms.map (Node.map φ) = ns.map (Node.map ψ)) :
    (m :: ms).map (Node.map φ) = (n :: ns).map (Node.map ψ) := congrArg₂ List.cons h hs

theorem map_some_eq {m n : Node} (h : m.map φ = n.map ψ) :
    (some m).map (Node.map φ) = (some n).map (Node.map ψ) := congrArg some h

theorem Lines.node_agree {m n : Lines} (hspan : φ.span span = ψ.span span')
    (h : m.statements.map (Node.map φ) = n.statements.map (Node.map ψ) ∧
      m.trailing.map (Node.map φ) = n.trailing.map (Node.map ψ)) :
    (m.node span).map φ = (n.node span').map ψ :=
  agree_of_fields (by decide) hspan
    (.cons (agree_nodes h.1) (.cons (agree_optionalNode h.2) .nil))

theorem Chain.node_agree {m n : Chain} (hspan : φ.span span = ψ.span span')
    (h : m.terms.map (Node.map φ) = n.terms.map (Node.map ψ) ∧ m.operators = n.operators) :
    (m.node span).map φ = (n.node span').map ψ :=
  agree_of_fields (by decide) hspan (.cons (agree_nodes h.1) (.cons (agree_operators h.2) .nil))

theorem numberNode_agree {sign sign' : Text} {number number' : Token}
    (hspan : φ.span span = ψ.span span') (hsign : sign = sign')
    (hnumber : number.text = number'.text) :
    (numberNode span sign number).map φ = (numberNode span' sign' number').map ψ := by
  rw [numberNode, numberNode, hsign, hnumber, Node.number, Node.number, Node.map, Node.map, hspan]
  rfl

/-- Maps agree on what a rule makes of meanings on which they agree. -/
theorem ruleMeaning_agree {x : Nonterminal} (rule : Rule x) (hspan : φ.span span = ψ.span span')
    {ms ns : Meanings rule.parts} (h : Meanings.Agree φ ψ ms ns) :
    x.Agree φ ψ (ruleMeaning rule span ms) (ruleMeaning rule span' ns) := by
  cases rule with
  | program => exact agree_of_fields (by decide) hspan (.cons (agree_nodes h.2.1) .nil)
  | noItems | lastItem | lastTypeOption | noTypeArguments | lastTypeExpr | lastCaseOption
  | noArguments | lastArgument | noTypeParameters | noNames | lastName | noBindings => rfl
  | someItems | typeExprs | arguments => exact map_cons_eq h.1 h.2.1
  | typeOptions | caseOptions => exact map_cons_eq h.1 h.2.2.1
  | noNewline | newline => trivial
  | functionDecl =>
      exact agree_of_fields (by decide) hspan (.cons (agree_text h.1)
        (.cons (agree_names h.2.2.1) (.cons (agree_node h.2.2.2.2.2.2.1) .nil)))
  | typeDecl =>
      exact agree_of_fields (by decide) hspan (.cons (agree_text h.2.1)
        (.cons (agree_names h.2.2.1) (.cons (agree_nodes h.2.2.2.2.2.1) .nil)))
  | names => exact congrArg₂ List.cons h.1 h.2.1
  | typeOption | typeExpr =>
      exact agree_of_fields (by decide) hspan
        (.cons (agree_text h.1) (.cons (agree_nodes h.2.1) .nil))
  | body | armBody => exact Lines.node_agree hspan h.1
  | noLines | noArmLines | lastArmLine => exact ⟨rfl, rfl⟩
  | trailingLine | trailingArmLine => exact ⟨rfl, map_some_eq h.1⟩
  | statementLine => exact ⟨map_cons_eq h.1 h.2.2.1.1, h.2.2.1.2⟩
  | statementArmLine => exact ⟨map_cons_eq h.1 h.2.1.1, h.2.1.2⟩
  | assignment =>
      exact agree_of_fields (by decide) hspan
        (.cons (agree_node h.1) (.cons (agree_node h.2.1) .nil))
  | caseOption =>
      exact agree_of_fields (by decide) hspan
        (.cons (agree_node h.1) (.cons (agree_node h.2.2.1) .nil))
  | bindTarget | updateTarget =>
      exact agree_of_fields (by decide) hspan (.cons rfl (.cons (agree_text h.1) .nil))
  | mutableTarget =>
      exact agree_of_fields (by decide) hspan (.cons rfl (.cons (agree_text h.2.1) .nil))
  | caseExpr =>
      exact agree_of_fields (by decide) hspan
        (.cons (agree_node h.2.1) (.cons (agree_nodes h.2.2.2.2.1) .nil))
  | pattern =>
      exact agree_of_fields (by decide) hspan
        (.cons (agree_text h.1) (.cons (agree_names h.2.1) .nil))
  | chainTrailing =>
      exact Chain.node_agree hspan
        ⟨map_cons_eq h.1 h.2.2.1.1, congrArg₂ List.cons h.2.1 h.2.2.1.2⟩
  | referenceTrailing | numberTrailing =>
      exact Chain.node_agree hspan ⟨map_cons_eq h.1 rfl, rfl⟩
  | parenthesisedTrailing => exact Chain.node_agree hspan ⟨map_cons_eq h.2.1 rfl, rfl⟩
  | expression => exact Chain.node_agree hspan h.1
  | chain => exact ⟨map_cons_eq h.1 h.2.1.1, h.2.1.2⟩
  | lastTerm => exact ⟨rfl, rfl⟩
  | nextTerms => exact ⟨h.2.1.1, congrArg₂ List.cons h.1 h.2.1.2⟩
  | call =>
      exact agree_of_fields (by decide) hspan
        (.cons (agree_text h.1) (.cons (agree_nodes h.2.2.1) .nil))
  | reference => exact agree_of_fields (by decide) hspan (.cons (agree_text h.1) .nil)
  | unsignedNumber => exact numberNode_agree hspan rfl (h.1.2 rfl)
  | signedNumber => exact numberNode_agree hspan h.1 (h.2.1.2 rfl)
  | plusSign | minusSign => exact h.1.2 rfl
  | addOperator | subtractOperator | multiplyOperator | divideOperator | powerOperator
  | moduloOperator | equalOperator | notEqualOperator | lessEqualOperator
  | greaterEqualOperator | lessOperator | greaterOperator => rfl
  | identifierName | typeName | caseName | mutName => exact h.1.1
  | nextItems | nextNames | nextTypeExprs | nextArguments | nextArmLines => exact h.2.1
  | loneExpression | typeArguments | bindings | typeParameters | parenthesisedTerm => exact h.2.1
  | functionItem | typeItem | assignmentItem | someNames | nextTypeOptions | assignmentStatement
  | callStatement | caseStatement | caseValue | expressionValue | nextCaseOptions | expressionArm
  | callTerm | referenceTerm | numberTerm | someArguments => exact h.1
  | bodyArm => exact h.2.2.1

end

/-! ## Tokens carried over -/

/-- Tokens are carried over to others one by one, with their kinds but that a keyword may take the
place of an identifier, and maps of trees agree on what they leave in a tree. -/
structure Carries (φ ψ : TreeMap) (filename filename' : Option String)
    (R : Token → Token → Prop) : Prop where
  kind : ∀ t u, R t u →
    u.kind = t.kind ∨ t.kind = .identifier ∧ u.kind ∈ Terminal.keywords
  name : ∀ t u, R t u → φ.name t.name = ψ.name u.name
  text : ∀ t u, R t u → t.kind.isNumeric = true → t.text = u.text
  span : ∀ ts us, List.Forall₂ R ts us →
    φ.span (tokensSpan filename ts) = ψ.span (tokensSpan filename' us)

/-- Pairs of which the first are in two parts are in two parts. -/
theorem exists_of_forall₂_append {R : Token → Token → Prop} {ts ts' us : List Token}
    (h : List.Forall₂ R (ts ++ ts') us) :
    ∃ us₁ us₂, us = us₁ ++ us₂ ∧ List.Forall₂ R ts us₁ ∧ List.Forall₂ R ts' us₂ := by
  induction ts generalizing us with
  | nil => exact ⟨[], us, rfl, .nil, h⟩
  | cons t ts ih =>
      cases h with
      | cons hfirst hlater =>
          obtain ⟨us₁, us₂, rfl, h₁, h₂⟩ := ih hlater
          exact ⟨_ :: us₁, us₂, rfl, .cons hfirst h₁, h₂⟩

/-- Identifiers are parts of names only. -/
theorem identifier_not_mem_parts {x : Nonterminal} (hx : x ≠ .name) (rule : Rule x) :
    ∀ s ∈ rule.parts, s ≠ .tok .identifier := by
  cases rule <;> first | exact absurd rfl hx | decide

/-- A name is its only token. -/
theorem Derivation.exists_name (d : Derivation (.sub .name)) :
    ∃ t : Token, d.tokens = [t] ∧ t.kind ∈ Terminal.names ∧ (∀ x, d.roles x = [.name]) ∧
      ∀ filename, (d.understand filename).meaning = t.name := by
  match d with
  | .node .identifierName (.cons (.token _ t h) .nil) | .node .typeName (.cons (.token _ t h) .nil)
  | .node .caseName (.cons (.token _ t h) .nil) | .node .mutName (.cons (.token _ t h) .nil) =>
      exact ⟨t, rfl, by rw [h]; decide, fun _ => rfl, fun _ => rfl⟩

/-- Any word is a name. -/
theorem Derivation.exists_of_word {t : Token} (h : t.kind ∈ Terminal.names) :
    ∃ d : Derivation (.sub .name), d.tokens = [t] := by
  have hkinds : t.kind = .identifier ∨ t.kind = .typeKeyword ∨ t.kind = .caseKeyword ∨
      t.kind = .mutKeyword := by simpa [Terminal.names] using h
  rcases hkinds with hkind | hkind | hkind | hkind
  · exact ⟨.node .identifierName (.cons (.token _ t hkind) .nil), rfl⟩
  · exact ⟨.node .typeName (.cons (.token _ t hkind) .nil), rfl⟩
  · exact ⟨.node .caseName (.cons (.token _ t hkind) .nil), rfl⟩
  · exact ⟨.node .mutName (.cons (.token _ t hkind) .nil), rfl⟩

section

variable {φ ψ : TreeMap} {filename filename' : Option String} {R : Token → Token → Prop}

/-- A name is carried over with its token. -/
theorem Carries.exists_name (h : Carries φ ψ filename filename' R) (d : Derivation (.sub .name))
    {us : List Token} (hus : List.Forall₂ R d.tokens us) :
    ∃ d' : Derivation (.sub .name), d'.tokens = us ∧ (∀ x, d'.roles x = d.roles x) ∧
      φ.name (d.understand filename).meaning = ψ.name (d'.understand filename').meaning := by
  obtain ⟨t, htokens, hkind, hroles, hmeaning⟩ := d.exists_name
  rw [htokens] at hus
  cases hus with
  | @cons _ u _ _ htu hnil =>
      cases hnil
      have hword : u.kind ∈ Terminal.names := by
        rcases h.kind t u htu with hsame | ⟨-, hkeyword⟩
        · exact hsame ▸ hkind
        · revert hkeyword
          generalize u.kind = k
          revert k
          decide
      obtain ⟨d', htokens'⟩ := Derivation.exists_of_word hword
      obtain ⟨u', hu', -, hroles', hmeaning'⟩ := d'.exists_name
      obtain rfl : u' = u := List.singleton_inj.1 (hu'.symm.trans htokens')
      refine ⟨d', htokens', fun x => (hroles' x).trans (hroles x).symm, ?_⟩
      rw [hmeaning, hmeaning']
      exact h.name t u' htu

mutual

/-- A derivation is carried over with its tokens. -/
theorem Carries.exists_carried (h : Carries φ ψ filename filename' R) : {s : Symbol} →
    (d : Derivation s) → s ≠ .tok .identifier → {us : List Token} →
      List.Forall₂ R d.tokens us → ∃ d' : Derivation s, d'.tokens = us ∧
        (∀ x, d'.roles x = d.roles x) ∧
          s.Agree φ ψ (d.understand filename).meaning (d'.understand filename').meaning
  | _, .token kind t kind_eq, hs, us, hus => by
      cases hus with
      | @cons _ u _ _ htu hnil =>
          cases hnil
          have hkind : u.kind = kind := by
            rcases h.kind t u htu with hsame | ⟨hidentifier, -⟩
            · exact hsame.trans kind_eq
            · exact absurd (congrArg Symbol.tok (kind_eq.symm.trans hidentifier)) hs
          refine ⟨.token kind u hkind, rfl, fun _ => rfl, h.name t u htu, fun hnumeric => ?_⟩
          exact h.text t u htu (kind_eq ▸ hnumeric)
  | .sub x, .node rule parts, _, us, hus => by
      by_cases hx : x = .name
      · subst hx
        exact h.exists_name (.node rule parts) hus
      · obtain ⟨parts', rfl, hroles, hagree⟩ :=
          h.exists_all_carried parts (identifier_not_mem_parts hx rule) hus
        refine ⟨.node rule parts', rfl, fun _ => hroles x, ruleMeaning_agree rule ?_ hagree⟩
        rw [parts.understand_extent, parts'.understand_extent]
        exact h.span _ _ hus

theorem Carries.exists_all_carried (h : Carries φ ψ filename filename' R) : {ss : List Symbol} →
    (ds : Derivations ss) → (∀ s ∈ ss, s ≠ .tok .identifier) → {us : List Token} →
      List.Forall₂ R ds.tokens us → ∃ ds' : Derivations ss, ds'.tokens = us ∧
        (∀ x, ds'.roles x = ds.roles x) ∧
          Meanings.Agree φ ψ (ds.understand filename).meanings (ds'.understand filename').meanings
  | _, .nil, _, us, hus => by
      cases hus
      exact ⟨.nil, rfl, fun _ => rfl, trivial⟩
  | _, .cons first rest, hss, us, hus => by
      obtain ⟨hs, hlater⟩ := List.forall_mem_cons.1 hss
      obtain ⟨us₁, us₂, rfl, h₁, h₂⟩ := exists_of_forall₂_append hus
      obtain ⟨first', rfl, hroles₁, hagree₁⟩ := h.exists_carried first hs h₁
      obtain ⟨rest', rfl, hroles₂, hagree₂⟩ := h.exists_all_carried rest hlater h₂
      refine ⟨.cons first' rest', rfl, fun x => ?_, hagree₁, hagree₂⟩
      rw [Derivations.roles, Derivations.roles, hroles₁, hroles₂]

end

end

end Spruce
