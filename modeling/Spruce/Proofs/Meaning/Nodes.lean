import Spruce.Proofs.Grammar.Lookahead
import Spruce.Proofs.Reference.Acceptance
import Spruce.Proofs.RoundTrip.Reads
import Spruce.Proofs.Tree.Descendants

set_option autoImplicit false

/-!
# Where nodes come from

A rule either makes a node, whose children are the nodes of its parts in order, or it passes the
nodes of its parts on as they are (`exists_node_ruleMeaning`, `nodes_ruleMeaning`). So every node in
a tree that was read is what some rule makes of parts whose tokens stand together in the text
(`Derivation.readFrom`), and only programs and bodies can be made of no tokens at all
(`tokens_ne_nil_of_makesNode`).
-/

namespace Spruce

variable {filename : Option String}

/-! ## Nodes of meanings -/

/-- The nodes that a meaning consists of, from left to right. -/
def Nonterminal.nodes : (x : Nonterminal) → x.Meaning → List Node
  | .program, n | .loneExpression, n | .item, n | .functionDecl, n | .typeDecl, n
  | .typeOption, n | .typeExpr, n | .body, n | .statement, n | .assignment, n | .target, n
  | .assignedValue, n | .trailing, n | .caseExpr, n | .caseOption, n | .pattern, n | .arm, n
  | .armBody, n | .expression, n | .term, n | .call, n | .reference, n | .number, n => [n]
  | .items, ns | .moreItems, ns | .typeOptions, ns | .moreTypeOptions, ns | .typeArguments, ns
  | .typeExprs, ns | .moreTypeExprs, ns | .caseOptions, ns | .moreCaseOptions, ns
  | .callArguments, ns | .arguments, ns | .moreArguments, ns => ns
  | .bodyLines, lines | .armLines, lines | .moreArmLines, lines =>
      Lines.statements lines ++ (Lines.trailing lines).toList
  | .chain, c | .moreChain, c => Chain.terms c
  | .optionalNewline, _ | .typeParameters, _ | .optionalNames, _ | .names, _ | .moreNames, _
  | .bindings, _ | .sign, _ | .operator, _ | .name, _ => []

/-- The nodes that the meaning of a symbol consists of. -/
def Symbol.nodes : (s : Symbol) → s.Meaning → List Node
  | .tok _, _ => []
  | .sub x, m => x.nodes m

/-- The nodes that some meanings consist of, from left to right. -/
def Meanings.nodes : {ss : List Symbol} → Meanings ss → List Node
  | [], _ => []
  | s :: _, (m, ms) => s.nodes m ++ Meanings.nodes ms

/-- A rule that makes a node of its parts. -/
def Rule.makesNode : {x : Nonterminal} → Rule x → Bool
  | _, .program | _, .functionDecl | _, .typeDecl | _, .typeOption | _, .typeExpr | _, .body
  | _, .assignment | _, .bindTarget | _, .mutableTarget | _, .updateTarget | _, .chainTrailing
  | _, .referenceTrailing | _, .numberTrailing | _, .parenthesisedTrailing | _, .caseExpr
  | _, .caseOption | _, .pattern | _, .armBody | _, .expression | _, .call | _, .reference
  | _, .unsignedNumber | _, .signedNumber => true
  | _, _ => false

/-! ## Children of nodes -/

theorem elements_nodes (ns : List Node) : (Value.nodes ns).elements = ns.map .node := rfl

theorem map_node_append_nil (ns : List Node) :
    ns.map Value.node ++ [] = (ns ++ []).map .node := by
  rw [List.append_nil, List.append_nil]

theorem childrenIn_optionalNode (n : Option Node) :
    FieldRole.optionalChild.childrenIn (.optionalNode n) = n.toList.map .node := by
  cases n <;> rfl

theorem Lines.node_children (span : Option Span) (lines : Lines) :
    (lines.node span).children = (lines.statements ++ lines.trailing.toList).map .node := by
  rw [List.map_append, ← childrenIn_optionalNode, ← elements_nodes]
  simp [Lines.node, Node.body, Node.children, NodeType.fields, FieldRole.childrenIn]

theorem Chain.node_children (span : Option Span) (chain : Chain) :
    (chain.node span).children = chain.terms.map .node := by
  rw [← elements_nodes]
  simp [Chain.node, Node.expr, Node.children, NodeType.fields, FieldRole.childrenIn]

/-- A rule that makes no node passes on the nodes of its parts. -/
theorem nodes_ruleMeaning {x : Nonterminal} {rule : Rule x} (h : rule.makesNode = false)
    (span : Option Span) (ms : Meanings rule.parts) :
    x.nodes (ruleMeaning rule span ms) = ms.nodes := by
  cases rule <;>
    first
    | exact absurd h (by decide)
    | rfl
    | exact (List.append_nil _).symm

/-- A rule that makes a node makes one, whose children are the nodes of its parts. -/
theorem exists_node_ruleMeaning {x : Nonterminal} {rule : Rule x} (h : rule.makesNode = true)
    (span : Option Span) (ms : Meanings rule.parts) :
    ∃ n, x.nodes (ruleMeaning rule span ms) = [n] ∧ n.span = span ∧
      n.children = ms.nodes.map .node := by
  cases rule with
  | program => exact ⟨_, rfl, rfl, map_node_append_nil ms.2.1⟩
  | typeDecl => exact ⟨_, rfl, rfl, map_node_append_nil ms.2.2.2.2.2.1⟩
  | typeOption | typeExpr => exact ⟨_, rfl, rfl, map_node_append_nil ms.2.1⟩
  | call => exact ⟨_, rfl, rfl, map_node_append_nil ms.2.2.1⟩
  | caseExpr =>
      exact ⟨_, rfl, rfl, map_node_append_nil (ms.2.1 :: ms.2.2.2.2.1)⟩
  | functionDecl | assignment | caseOption | bindTarget | mutableTarget | updateTarget | pattern
  | reference | unsignedNumber | signedNumber => exact ⟨_, rfl, rfl, rfl⟩
  | body | armBody =>
      refine ⟨_, rfl, rfl, (Lines.node_children _ _).trans ?_⟩
      exact congrArg (List.map Value.node) (List.append_nil _).symm
  | expression =>
      refine ⟨_, rfl, rfl, (Chain.node_children _ _).trans ?_⟩
      exact congrArg (List.map Value.node) (List.append_nil _).symm
  | chainTrailing =>
      refine ⟨_, rfl, rfl, (Chain.node_children _ _).trans ?_⟩
      exact congrArg (fun ns => Value.node ms.1 :: ns.map Value.node) (List.append_nil _).symm
  | referenceTrailing | numberTrailing | parenthesisedTrailing =>
      exact ⟨_, rfl, rfl, Chain.node_children _ _⟩
  | _ => exact absurd h (by decide)

/-! ## Tokens of nodes -/

/-- Symbols that do not derive the empty sequence have tokens. -/
theorem Derivations.tokens_ne_nil {ss : List Symbol} (ds : Derivations ss)
    (h : allNullable ss = false) : ds.tokens ≠ [] := by
  intro hnil
  have hend : ahead [] ∈ [none] := List.mem_singleton.2 rfl
  have hmem := ds.ahead_mem hend
  rw [hnil, lookahead, h] at hmem
  simp at hmem

/-- A symbol that does not derive the empty sequence has tokens. -/
theorem Derivation.tokens_ne_nil {s : Symbol} (d : Derivation s) (h : allNullable [s] = false) :
    d.tokens ≠ [] := by
  have hne := (Derivations.cons d .nil).tokens_ne_nil h
  rwa [Derivations.tokens, Derivations.tokens, List.append_nil] at hne

/-- Only programs and bodies are made of no tokens. -/
theorem tokens_ne_nil_of_makesNode {x : Nonterminal} {rule : Rule x} (h : rule.makesNode = true)
    (hx : x ≠ .program ∧ x ≠ .body ∧ x ≠ .armBody) (parts : Derivations rule.parts) :
    parts.tokens ≠ [] := by
  apply parts.tokens_ne_nil
  cases rule <;>
    first
    | rfl
    | exact absurd h (by decide)
    | exact absurd hx (by decide)

/-- The span of tokens reaches from the start of the first to the end of the last. -/
theorem tokensSpan_eq_some (filename : Option String) {us : List Token} {first last : Token}
    (hfirst : us.head? = some first) (hlast : us.getLast? = some last) :
    tokensSpan filename us = some (Span.ofExtent filename ⟨first.start, last.stop⟩) := by
  cases us with
  | nil => simp at hfirst
  | cons t ts =>
      obtain rfl := Option.some.inj hfirst
      rw [List.getLast?_eq_some_getLast (List.cons_ne_nil _ _)] at hlast
      obtain rfl := Option.some.inj hlast
      rfl

/-! ## Derivations of nodes -/

theorem Derivation.isTight_parts {x : Nonterminal} (hx : x ≠ .number) {rule : Rule x}
    {parts : Derivations rule.parts} (h : (Derivation.node rule parts).IsTight) :
    parts.IsTight :=
  (ruleImage_detachedSigns hx rule parts.phrases).symm.trans h

theorem Derivations.isTight_of_cons {s : Symbol} {ss : List Symbol} {first : Derivation s}
    {rest : Derivations ss} (h : (Derivations.cons first rest).IsTight) :
    first.IsTight ∧ rest.IsTight :=
  List.append_eq_nil_iff.1 ((Images.detachedSigns_cons _).symm.trans h)

theorem Derivation.isTight_iff_parts {x : Nonterminal} (hx : x ≠ .number) {rule : Rule x}
    {parts : Derivations rule.parts} : (Derivation.node rule parts).IsTight ↔ parts.IsTight :=
  ⟨Derivation.isTight_parts hx, Derivation.isTight_node hx⟩

theorem Derivations.isTight_single {s : Symbol} {d : Derivation s} :
    (Derivations.cons d .nil).IsTight ↔ d.IsTight :=
  ⟨fun h => (Derivations.isTight_of_cons h).1, fun h => Derivations.isTight_cons h rfl⟩

theorem Derivations.isTight_pair {s s' : Symbol} {first : Derivation s} {last : Derivation s'} :
    (Derivations.cons first (.cons last .nil)).IsTight ↔ first.IsTight ∧ last.IsTight := by
  constructor
  · intro htight
    obtain ⟨hfirst, hrest⟩ := Derivations.isTight_of_cons htight
    exact ⟨hfirst, (Derivations.isTight_of_cons hrest).1⟩
  · rintro ⟨hfirst, hlast⟩
    exact Derivations.isTight_cons hfirst (Derivations.isTight_cons hlast rfl)

/-- A derivation by a rule that makes no node means the nodes of its parts. -/
theorem Derivation.nodes_understand {x : Nonterminal} {rule : Rule x}
    (h : rule.makesNode = false) (parts : Derivations rule.parts) :
    x.nodes ((Derivation.node rule parts).understand filename).meaning =
      (parts.understand filename).meanings.nodes :=
  nodes_ruleMeaning h _ _

/-- A derivation by a rule that makes a node means one with the span of its tokens, whose children
are the nodes of its parts. -/
theorem Derivation.exists_node_understand {x : Nonterminal} {rule : Rule x}
    (h : rule.makesNode = true) (parts : Derivations rule.parts) :
    ∃ n, x.nodes ((Derivation.node rule parts).understand filename).meaning = [n] ∧
      n.span = tokensSpan filename parts.tokens ∧
        n.children = (parts.understand filename).meanings.nodes.map .node := by
  rw [tokensSpan, ← parts.understand_extent]
  exact exists_node_ruleMeaning h _ _

/-- A node that some rule makes of parts that stand together among some tokens, none of their signs
detached. -/
inductive Node.ReadFrom (filename : Option String) (ts : List Token) (n : Node) : Prop where
  | intro {x : Nonterminal} (rule : Rule x) (parts : Derivations rule.parts)
      (hmakes : rule.makesNode = true)
      (hnode : x.nodes ((Derivation.node rule parts).understand filename).meaning = [n])
      (htight : (Derivation.node rule parts).IsTight) (hwithin : parts.tokens <:+: ts)

/-- The parts of a number are no nodes. -/
theorem nodes_number (rule : Rule .number) (ms : Meanings rule.parts) : ms.nodes = [] := by
  cases rule <;> rfl

mutual

/-- Every node that a derivation means, and every node below it, is made by some rule of parts that
stand together among the tokens of the derivation. -/
theorem Derivation.readFrom {ts : List Token} : {s : Symbol} → (d : Derivation s) → d.IsTight →
    d.tokens <:+: ts → ∀ n ∈ s.nodes (d.understand filename).meaning, ∀ m, n.Has m →
      m.ReadFrom filename ts
  | _, .token _ _ _, _, _, n, hn, _, _ => absurd hn List.not_mem_nil
  | .sub x, .node rule parts, htight, hwithin, n, hn, m, hm => by
      have hparts : ∀ c ∈ (parts.understand filename).meanings.nodes, ∀ m, c.Has m →
          m.ReadFrom filename ts := by
        by_cases hx : x = .number
        · subst hx
          rw [nodes_number rule]
          exact fun c hc => absurd hc List.not_mem_nil
        · exact parts.readFrom (Derivation.isTight_parts hx htight) hwithin
      cases hmakes : rule.makesNode with
      | false => exact hparts n (Derivation.nodes_understand hmakes parts ▸ hn) m hm
      | true =>
          obtain ⟨n', hnode, -, hchildren⟩ := Derivation.exists_node_understand hmakes parts
          obtain rfl : n = n' := List.mem_singleton.1 (hnode ▸ hn)
          cases hm with
          | refl => exact .intro rule parts hmakes hnode htight hwithin
          | child hc hm =>
              rw [hchildren] at hc
              obtain ⟨c', hmem, hc'⟩ := List.mem_map.1 hc
              obtain rfl := Value.node.inj hc'
              exact hparts c' hmem m hm

theorem Derivations.readFrom {ts : List Token} : {ss : List Symbol} → (ds : Derivations ss) →
    ds.IsTight → ds.tokens <:+: ts → ∀ n ∈ (ds.understand filename).meanings.nodes, ∀ m, n.Has m →
      m.ReadFrom filename ts
  | _, .nil, _, _, n, hn, _, _ => absurd hn List.not_mem_nil
  | _, .cons first rest, htight, hwithin, n, hn, m, hm => by
      obtain ⟨hfirst, hrest⟩ := Derivations.isTight_of_cons htight
      rcases List.mem_append.1 hn with hn | hn
      · have hfront := (List.prefix_append first.tokens rest.tokens).isInfix
        exact first.readFrom hfirst (hfront.trans hwithin) n hn m hm
      · have hsuffix := (List.suffix_append first.tokens rest.tokens).isInfix
        exact rest.readFrom hrest (hsuffix.trans hwithin) n hn m hm

end

/-- The tree of a text and every node below its root is made by some rule of parts that stand
together in the text. -/
theorem readFrom_of_parse {start : Start} {text : Text} {root n : Node}
    (h : (parse start filename text).outcome = .ok root) (hn : root.Has n) :
    n.ReadFrom filename (lex text).tokens := by
  obtain ⟨-, d, htokens, htight, rfl⟩ := parse_eq_ok_iff.1 h
  have hwithin : d.tokens <:+: (lex text).tokens := htokens ▸ List.infix_rfl
  cases start with
  | program => exact d.readFrom htight hwithin _ List.mem_cons_self n hn
  | expression => exact d.readFrom htight hwithin _ List.mem_cons_self n hn

end Spruce
