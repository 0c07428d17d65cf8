import Spruce.Proofs.Meaning.Alike
import Spruce.Proofs.Meaning.Nodes

set_option autoImplicit false

/-!
# Slices of a text

What a text has between the ends of the span of a node reads as that node by itself
(`parse_slice`): an expression as an expression, a call, a name or a number as the expression of
that term alone, and a declaration or assignment as the program of that item alone.

The tokens of a slice are those of the node, as what is cut off does not depend on what comes before
or after (`exists_slice`). The derivation of the node makes a derivation of a whole text from the
same tokens, which means the same wherever they stand (`parse_slice_of_derivation`).
-/

namespace Spruce

variable {filename filename' : Option String}

/-! ## Slices -/

/-- What a text has between the ends of a span. -/
def Text.slice (text : Text) (s : Span) : Text := (text.take s.stop.toNat).drop s.start.toNat

/-- The text is accepted and its tree equals the given one. -/
def Text.ReadsAs (start : Start) (filename : Option String) (text : Text) (n : Node) : Prop :=
  ∃ m, (parse start filename text).outcome = .ok m ∧ m.equal n = true

/-- The slice that the span of some tokens names has these tokens, in another place. -/
theorem exists_bare_slice (filename : Option String) {text : Text} {us : List Token}
    (hrest : (lex text).rest = []) (hwithin : us <:+: (lex text).tokens) (hne : us ≠ []) :
    ∃ s, tokensSpan filename us = some s ∧ (lex (text.slice s)).rest = [] ∧
      bare (lex (text.slice s)).tokens = bare us := by
  obtain ⟨before, after, htokens⟩ := hwithin
  rw [List.append_assoc] at htokens
  have hfirst := List.head?_eq_some_head hne
  have hlast := List.getLast?_eq_some_getLast hne
  obtain ⟨ls, hls, htext, hplace⟩ := exists_slice hrest htokens.symm hfirst hlast
  have hslice : text.slice (Span.ofExtent filename
      ⟨(us.head hne).start, (us.getLast hne).stop⟩) = textOf ls := htext.symm
  obtain ⟨hrest', htokens'⟩ := lex_textOf hls
  refine ⟨_, tokensSpan_eq_some filename hfirst hlast, ?_, ?_⟩
  · rw [hslice, hrest']
  · rw [hslice, htokens', bare_place hls.text_ne_nil, ← hplace, bare_place hls.text_ne_nil]

/-- A slice of the text of a derivation that could be that of a whole text is accepted and means the
same. -/
theorem parse_slice_of_derivation (filename filename' : Option String) {start : Start}
    {text : Text} (d : Derivation start.goal)
    (hrest : (lex text).rest = []) (hwithin : d.tokens <:+: (lex text).tokens)
    (hne : d.tokens ≠ []) (htight : (start.phrase d).detachedSigns = []) :
    ∃ s, tokensSpan filename d.tokens = some s ∧
      (text.slice s).ReadsAs start filename' (start.node (d.understand filename).meaning) := by
  obtain ⟨s, hs, hrest', hbare⟩ := exists_bare_slice filename hrest hwithin hne
  refine ⟨s, hs, parse_of_labels d hrest' (labels_eq_of_bare hbare) ?_⟩
  rw [Start.detachedSigns_phrase] at htight
  exact detachedAmong_eq_nil_of_bare hbare.symm htight

/-- Spans take no part in equality. -/
theorem Node.equal_span (m n : Node) (span : Option Span) :
    m.equal { n with span := span } = m.equal n := by
  cases m
  cases n
  rfl

/-! ## Derivations of whole texts -/

/-- An expression as a whole text. -/
def Derivation.asText (e : Derivation (.sub .expression)) : Derivation Start.expression.goal :=
  .node .loneExpression
    (.cons (.node .noNewline .nil) (.cons e (.cons (.node .noNewline .nil) .nil)))

/-- A term as an expression. -/
def Derivation.asExpression (d : Derivation (.sub .term)) : Derivation (.sub .expression) :=
  .node .expression (.cons (.node .chain (.cons d (.cons (.node .lastTerm .nil) .nil))) .nil)

/-- An item as a program. -/
def Derivation.asProgram (d : Derivation (.sub .item)) : Derivation Start.program.goal :=
  .node .program (.cons (.node .noNewline .nil) (.cons
    (.node .someItems (.cons d (.cons (.node .lastItem .nil) .nil))) .nil))

theorem Derivation.asText_tokens (e : Derivation (.sub .expression)) :
    e.asText.tokens = e.tokens := by
  simp [asText, Derivation.tokens, Derivations.tokens]

theorem Derivation.asExpression_tokens (d : Derivation (.sub .term)) :
    d.asExpression.tokens = d.tokens := by
  simp [asExpression, Derivation.tokens, Derivations.tokens]

theorem Derivation.asProgram_tokens (d : Derivation (.sub .item)) :
    d.asProgram.tokens = d.tokens := by
  simp [asProgram, Derivation.tokens, Derivations.tokens]

theorem Derivation.isTight_asText {e : Derivation (.sub .expression)} (h : e.IsTight) :
    e.asText.IsTight :=
  isTight_node (by decide) (Derivations.isTight_cons rfl
    (Derivations.isTight_cons h (Derivations.isTight_cons rfl rfl)))

theorem Derivation.isTight_asExpression {d : Derivation (.sub .term)} (h : d.IsTight) :
    d.asExpression.IsTight :=
  isTight_node (by decide) (Derivations.isTight_cons
    (isTight_node (by decide) (Derivations.isTight_cons h (Derivations.isTight_cons rfl rfl))) rfl)

theorem Derivation.isTight_asProgram {d : Derivation (.sub .item)} (h : d.IsTight) :
    d.asProgram.IsTight :=
  isTight_node (by decide) (Derivations.isTight_cons rfl (Derivations.isTight_cons
    (isTight_node (by decide) (Derivations.isTight_cons h (Derivations.isTight_cons rfl rfl))) rfl))

/-- The slice of an expression reads as that expression. -/
theorem parse_slice_expression {text : Text} {e : Derivation (.sub .expression)} {n : Node}
    (hrest : (lex text).rest = []) (hwithin : e.tokens <:+: (lex text).tokens) (he : e.IsTight)
    (hmeaning : ∃ span, (e.understand filename).meaning = ({ n with span := span } : Node)) :
    ∃ s, tokensSpan filename e.tokens = some s ∧
      (text.slice s).ReadsAs .expression filename' n := by
  have hne := e.tokens_ne_nil rfl
  rw [← e.asText_tokens] at hwithin hne ⊢
  obtain ⟨s, hs, m, hm, hequal⟩ := parse_slice_of_derivation filename filename' e.asText hrest
    hwithin hne (Derivation.isTight_asText he)
  obtain ⟨span, hspan⟩ := hmeaning
  have hwhole : Start.expression.node (e.asText.understand filename).meaning =
      ({ n with span := span } : Node) := hspan
  rw [hwhole, Node.equal_span] at hequal
  exact ⟨s, hs, m, hm, hequal⟩

/-- The slice of a term reads as the expression of that term alone. -/
theorem parse_slice_term {text : Text} {d : Derivation (.sub .term)}
    (hrest : (lex text).rest = []) (hwithin : d.tokens <:+: (lex text).tokens) (hd : d.IsTight) :
    ∃ s, tokensSpan filename d.tokens = some s ∧ (text.slice s).ReadsAs .expression filename'
      (.expr none (.nodes [(d.understand filename).meaning]) (.operators [])) := by
  rw [← d.asExpression_tokens] at hwithin ⊢
  exact parse_slice_expression hrest hwithin (Derivation.isTight_asExpression hd) ⟨_, rfl⟩

/-- The slice of an item reads as the program of that item alone. -/
theorem parse_slice_item {text : Text} {d : Derivation (.sub .item)}
    (hrest : (lex text).rest = []) (hwithin : d.tokens <:+: (lex text).tokens) (hd : d.IsTight) :
    ∃ s, tokensSpan filename d.tokens = some s ∧ (text.slice s).ReadsAs .program filename'
      (.program none (.nodes [(d.understand filename).meaning])) := by
  have hne := d.tokens_ne_nil rfl
  rw [← d.asProgram_tokens] at hwithin hne ⊢
  obtain ⟨s, hs, m, hm, hequal⟩ := parse_slice_of_derivation filename filename' d.asProgram hrest
    hwithin hne (Derivation.isTight_asProgram hd)
  have hspan := Node.equal_span m
    (Start.program.node (d.asProgram.understand filename).meaning) none
  exact ⟨s, hs, m, hm, hspan.trans hequal⟩

/-! ## Nodes as whole texts -/

theorem exists_expression_of_term (d : Derivation (.sub .term)) (h : d.IsTight) :
    ∃ e : Derivation (.sub .expression), e.tokens = d.tokens ∧ e.IsTight ∧ ∃ span,
      (e.understand filename).meaning =
        Node.expr span (.nodes [(d.understand filename).meaning]) (.operators []) :=
  ⟨d.asExpression, d.asExpression_tokens, Derivation.isTight_asExpression h, _, rfl⟩

/-- An expression node comes of a derivation of an expression, also where it gives a body its
value. -/
theorem exists_expression {x : Nonterminal} {rule : Rule x} {parts : Derivations rule.parts}
    {n : Node} (hmakes : rule.makesNode = true)
    (hnode : x.nodes ((Derivation.node rule parts).understand filename).meaning = [n])
    (htight : (Derivation.node rule parts).IsTight) (htype : n.type = .expr) :
    ∃ e : Derivation (.sub .expression), e.tokens = parts.tokens ∧ e.IsTight ∧
      ∃ span, (e.understand filename).meaning = ({ n with span := span } : Node) := by
  cases rule with
  | expression =>
      obtain rfl := List.singleton_inj.1 hnode
      exact ⟨.node .expression parts, rfl, htight, _, rfl⟩
  | chainTrailing =>
      obtain rfl := List.singleton_inj.1 hnode
      match parts, htight with
      | .cons term (.cons operator (.cons chain .nil)), htight =>
          obtain ⟨hterm, hlater⟩ :=
            Derivations.isTight_of_cons (Derivation.isTight_parts (by decide) htight)
          let whole : Derivation (.sub .chain) := .node .chain (.cons term (.cons
            (.node .nextTerms (.cons operator (.cons chain .nil))) .nil))
          have hmore : (Derivation.node .nextTerms
              (.cons operator (.cons chain .nil))).IsTight :=
            Derivation.isTight_node (by decide) hlater
          have hwhole : whole.IsTight :=
            Derivation.isTight_node (by decide) (Derivations.isTight_cons hterm
              (Derivations.isTight_cons hmore rfl))
          refine ⟨.node .expression (.cons whole .nil), ?_,
            Derivation.isTight_node (by decide) (Derivations.isTight_cons hwhole rfl), _, rfl⟩
          simp [whole, Derivation.tokens, Derivations.tokens]
  | referenceTrailing =>
      obtain rfl := List.singleton_inj.1 hnode
      have hparts := Derivation.isTight_parts (by decide) htight
      exact exists_expression_of_term (.node .referenceTerm parts)
        (Derivation.isTight_node (by decide) hparts)
  | numberTrailing =>
      obtain rfl := List.singleton_inj.1 hnode
      have hparts := Derivation.isTight_parts (by decide) htight
      exact exists_expression_of_term (.node .numberTerm parts)
        (Derivation.isTight_node (by decide) hparts)
  | parenthesisedTrailing =>
      obtain rfl := List.singleton_inj.1 hnode
      have hparts := Derivation.isTight_parts (by decide) htight
      exact exists_expression_of_term (.node .parenthesisedTerm parts)
        (Derivation.isTight_node (by decide) hparts)
  | _ =>
      -- the others make nodes of other types, or none
      first
      | exact absurd hmakes (by decide)
      | obtain rfl := List.singleton_inj.1 hnode
        exact NodeType.noConfusion htype

/-- The types of nodes that are terms by themselves. -/
def NodeType.isTerm (type : NodeType) : Bool := type = .call || type = .identifier || type = .number

/-- The types of nodes that are items of a program or statements that could be. -/
def NodeType.isItem (type : NodeType) : Bool :=
  type = .functionDecl || type = .typeDecl || type = .assign

/-- A call, a name or a number comes of a derivation of a term. -/
theorem exists_term {x : Nonterminal} {rule : Rule x} {parts : Derivations rule.parts}
    {n : Node} (hmakes : rule.makesNode = true)
    (hnode : x.nodes ((Derivation.node rule parts).understand filename).meaning = [n])
    (htight : (Derivation.node rule parts).IsTight) (htype : n.type.isTerm = true) :
    ∃ d : Derivation (.sub .term), d.tokens = parts.tokens ∧ d.IsTight ∧
      (d.understand filename).meaning = n := by
  have hwhole : (Derivations.cons (.node rule parts) .nil).IsTight :=
    Derivations.isTight_cons htight rfl
  cases rule with
  | call =>
      obtain rfl := List.singleton_inj.1 hnode
      exact ⟨.node .callTerm (.cons (.node .call parts) .nil), List.append_nil _,
        Derivation.isTight_node (by decide) hwhole, rfl⟩
  | reference =>
      obtain rfl := List.singleton_inj.1 hnode
      exact ⟨.node .referenceTerm (.cons (.node .reference parts) .nil), List.append_nil _,
        Derivation.isTight_node (by decide) hwhole, rfl⟩
  | unsignedNumber =>
      obtain rfl := List.singleton_inj.1 hnode
      exact ⟨.node .numberTerm (.cons (.node .unsignedNumber parts) .nil), List.append_nil _,
        Derivation.isTight_node (by decide) hwhole, rfl⟩
  | signedNumber =>
      obtain rfl := List.singleton_inj.1 hnode
      exact ⟨.node .numberTerm (.cons (.node .signedNumber parts) .nil), List.append_nil _,
        Derivation.isTight_node (by decide) hwhole, rfl⟩
  | _ =>
      first
      | exact absurd hmakes (by decide)
      | obtain rfl := List.singleton_inj.1 hnode
        exact Bool.noConfusion htype

/-- A declaration or assignment comes of a derivation of an item. -/
theorem exists_item {x : Nonterminal} {rule : Rule x} {parts : Derivations rule.parts}
    {n : Node} (hmakes : rule.makesNode = true)
    (hnode : x.nodes ((Derivation.node rule parts).understand filename).meaning = [n])
    (htight : (Derivation.node rule parts).IsTight) (htype : n.type.isItem = true) :
    ∃ d : Derivation (.sub .item), d.tokens = parts.tokens ∧ d.IsTight ∧
      (d.understand filename).meaning = n := by
  have hwhole : (Derivations.cons (.node rule parts) .nil).IsTight :=
    Derivations.isTight_cons htight rfl
  cases rule with
  | functionDecl =>
      obtain rfl := List.singleton_inj.1 hnode
      exact ⟨.node .functionItem (.cons (.node .functionDecl parts) .nil), List.append_nil _,
        Derivation.isTight_node (by decide) hwhole, rfl⟩
  | typeDecl =>
      obtain rfl := List.singleton_inj.1 hnode
      exact ⟨.node .typeItem (.cons (.node .typeDecl parts) .nil), List.append_nil _,
        Derivation.isTight_node (by decide) hwhole, rfl⟩
  | assignment =>
      obtain rfl := List.singleton_inj.1 hnode
      exact ⟨.node .assignmentItem (.cons (.node .assignment parts) .nil), List.append_nil _,
        Derivation.isTight_node (by decide) hwhole, rfl⟩
  | _ =>
      first
      | exact absurd hmakes (by decide)
      | obtain rfl := List.singleton_inj.1 hnode
        exact Bool.noConfusion htype

/-- In an accepted text, what the span of a node names reads as that node by itself: as the lone
expression for an expression, as the expression of the one term for a call, a name or a number, and
as the program of the one item for a declaration or an assignment, whether that stands at the top or
in a body. -/
theorem parse_slice (start : Start) (filename filename' : Option String) (text : Text)
    (root n : Node) (h : (parse start filename text).outcome = .ok root) (hn : root.Has n) :
    (n.type = .expr →
      ∃ s, n.span = some s ∧ (text.slice s).ReadsAs .expression filename' n) ∧
    (n.type.isTerm = true →
      ∃ s, n.span = some s ∧ (text.slice s).ReadsAs .expression filename'
        (.expr none (.nodes [n]) (.operators []))) ∧
    (n.type.isItem = true →
      ∃ s, n.span = some s ∧ (text.slice s).ReadsAs .program filename'
        (.program none (.nodes [n]))) := by
  have hrest := (parse_eq_ok_iff.1 h).1
  obtain ⟨rule, parts, hmakes, hnode, htight, hwithin⟩ := readFrom_of_parse h hn
  obtain ⟨n', hnode', hspan, -⟩ := Derivation.exists_node_understand hmakes parts
  obtain rfl : n = n' := List.singleton_inj.1 (hnode.symm.trans hnode')
  rw [hspan]
  refine ⟨fun htype => ?_, fun htype => ?_, fun htype => ?_⟩
  · obtain ⟨e, htokens, he, hmeaning⟩ := exists_expression hmakes hnode htight htype
    rw [← htokens] at hwithin ⊢
    exact parse_slice_expression hrest hwithin he hmeaning
  · obtain ⟨d, htokens, hd, rfl⟩ := exists_term hmakes hnode htight htype
    rw [← htokens] at hwithin ⊢
    exact parse_slice_term hrest hwithin hd
  · obtain ⟨d, htokens, hd, rfl⟩ := exists_item hmakes hnode htight htype
    rw [← htokens] at hwithin ⊢
    exact parse_slice_item hrest hwithin hd

/-- The lexemes of `a=(b)`. -/
def parenthesisedLexemes : List Lexeme :=
  [⟨some .identifier, ['a']⟩, ⟨some .equal, ['=']⟩, ⟨some .leftParen, ['(']⟩,
    ⟨some .identifier, ['b']⟩, ⟨some .rightParen, [')']⟩]

/-- The derivation of `a=(b)` as a program. -/
def parenthesisedDerivation : Derivation Start.program.goal :=
  .node .program (.cons (.node .noNewline .nil) (.cons (.node .someItems (.cons
    (.node .assignmentItem (.cons (.node .assignment (.cons
      (.node .bindTarget (.cons
        (.node .identifierName
          (.cons (.token .identifier (.at .identifier ['a'] .origin) rfl) .nil))
        (.cons (.token .equal (.at .equal ['='] ⟨1, 1, 2⟩) rfl) .nil)))
      (.cons (.node .expressionValue (.cons (.node .expression (.cons (.node .chain (.cons
        (.node .parenthesisedTerm
          (.cons (.token .leftParen (.at .leftParen ['('] ⟨2, 1, 3⟩) rfl)
          (.cons (.node .expression (.cons (.node .chain (.cons
            (.node .referenceTerm (.cons (.node .reference (.cons (.node .identifierName
              (.cons (.token .identifier (.at .identifier ['b'] ⟨3, 1, 4⟩) rfl) .nil)) .nil)) .nil))
            (.cons (.node .lastTerm .nil) .nil))) .nil))
          (.cons (.token .rightParen (.at .rightParen [')'] ⟨4, 1, 5⟩) rfl) .nil))))
        (.cons (.node .lastTerm .nil) .nil))) .nil)) .nil)) .nil))) .nil))
    (.cons (.node .lastItem .nil) .nil))) .nil))

/-- The name in `a=(b)`. -/
def parenthesisedName : Node := .identifier (some ⟨3, 4, 1, 4, none⟩) (.text "b")

/-- The expression in the parentheses of `a=(b)`, which its span leaves out. -/
def parenthesisedExpression : Node :=
  .expr (some ⟨3, 4, 1, 4, none⟩) (.nodes [parenthesisedName]) (.operators [])

/-- The assignment `a=(b)`. -/
def parenthesisedAssignment : Node :=
  .assign (some ⟨0, 5, 1, 1, none⟩)
    (.node (.target (some ⟨0, 2, 1, 1, none⟩) (.targetKind .bind) (.text "a")))
    (.node (.expr (some ⟨2, 5, 1, 3, none⟩) (.nodes [parenthesisedExpression]) (.operators [])))

/-- The text `a=(b)` has no other derivation. -/
theorem derive_parenthesised :
    derive .program none (textOf parenthesisedLexemes) = .ok parenthesisedDerivation := by
  have hcut : AreCut parenthesisedLexemes :=
    .cons rfl (.cons rfl (.cons rfl (.cons rfl (.cons rfl .nil))))
  obtain ⟨hrest, htokens⟩ := lex_textOf hcut
  exact derive_eq_ok_iff.2 ⟨hrest, htokens.symm⟩

/-- The text `a=(b)` is accepted. -/
theorem parse_parenthesised : (parse .program none (textOf parenthesisedLexemes)).outcome =
    .ok (.program (some ⟨0, 5, 1, 1, none⟩) (.nodes [parenthesisedAssignment])) := by
  obtain ⟨hrest, htokens⟩ := derive_eq_ok_iff.1 derive_parenthesised
  exact parse_eq_ok_iff.2 ⟨hrest, parenthesisedDerivation, htokens, rfl, rfl⟩

/-- Three slices of `a=(b)`: one is `b` as an expression and as a name, and one the whole. -/
theorem parse_slice_parenthesised :
    Text.ReadsAs .expression none ['b'] parenthesisedExpression ∧
      Text.ReadsAs .expression none ['b']
        (.expr none (.nodes [parenthesisedName]) (.operators [])) ∧
      Text.ReadsAs .program none ['a', '=', '(', 'b', ')']
        (.program none (.nodes [parenthesisedAssignment])) := by
  have hassignment : (Node.program (some ⟨0, 5, 1, 1, none⟩)
      (.nodes [parenthesisedAssignment])).Has parenthesisedAssignment :=
    .child List.mem_cons_self .refl
  have hexpression : parenthesisedAssignment.Has parenthesisedExpression :=
    .child (List.mem_cons_of_mem _ List.mem_cons_self) (.child List.mem_cons_self .refl)
  have hname : parenthesisedExpression.Has parenthesisedName :=
    .child List.mem_cons_self .refl
  refine ⟨?_, ?_, ?_⟩
  · obtain ⟨s, hs, hreads⟩ := (parse_slice .program none none _ _ _ parse_parenthesised
      (hassignment.trans hexpression)).1 rfl
    obtain rfl := Option.some.inj hs
    exact hreads
  · obtain ⟨s, hs, hreads⟩ := (parse_slice .program none none _ _ _ parse_parenthesised
      (hassignment.trans (hexpression.trans hname))).2.1 rfl
    obtain rfl := Option.some.inj hs
    exact hreads
  · obtain ⟨s, hs, hreads⟩ := (parse_slice .program none none _ _ _ parse_parenthesised
      hassignment).2.2 rfl
    obtain rfl := Option.some.inj hs
    exact hreads

end Spruce
