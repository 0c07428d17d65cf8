import Spruce.Proofs.Reference.Tree
import Spruce.Proofs.Reference.Unambiguous
import Spruce.Proofs.Token.Spelling

set_option autoImplicit false

/-!
# Meanings as children

The meaning of a derivation and the children of its phrase show the same thing
(`Derivation.shows`). How children show a meaning depends on the nonterminal
(`Nonterminal.Shows`): a part that may be left out shows the same whether it is absent or empty,
the lines of a body may have a trace of an absent expression among them, and the terms and
operators of a chain alternate.
-/

namespace Spruce

open Reference Reference.Phrase

variable {filename : Option String}

/-! ## Composing children -/

namespace Reference

theorem Child.values?_map (vs : List Value) : Child.values? (vs.map .value) = some vs := by
  induction vs with
  | nil => rfl
  | cons v vs ih =>
      have hrest : (vs.map Child.value).mapM Child.value? = some vs := ih
      simp [values?, hrest, value?]

theorem Child.values?_eq_some {cs : List Child} {vs : List Value} (h : Child.values? cs = some vs) :
    cs = vs.map .value := by
  induction cs generalizing vs with
  | nil =>
      obtain rfl : [] = vs := by simpa [values?] using h
      rfl
  | cons c cs ih =>
      cases c with
      | token t => simp [values?, value?] at h
      | value v =>
          obtain ⟨vs', hvs', rfl⟩ : ∃ vs', cs.mapM Child.value? = some vs' ∧ v :: vs' = vs := by
            simpa [values?, value?, Option.bind_eq_some_iff] using h
          rw [List.map_cons, ← ih hvs']

theorem joined_assoc (a b c : Option (List Child)) :
    joined (joined a b) c = joined a (joined b c) := by
  cases a <;> cases b <;> cases c <;> simp [joined]

theorem joined_nil (a : Option (List Child)) : joined a (some []) = a := by
  cases a <;> simp [joined]

theorem nil_joined (a : Option (List Child)) : joined (some []) a = a := by
  cases a <;> simp [joined]

theorem joined_some {a b : Option (List Child)} {cs ds : List Child} (ha : a = some cs)
    (hb : b = some ds) : joined a b = some (cs ++ ds) := by
  rw [ha, hb]
  rfl

namespace Phrase

variable {p q : Pattern} {c : Construct}

theorem children_both {first : Phrase p} {second : Phrase q} {cs ds : List Child}
    (hfirst : first.children filename = some cs) (hsecond : second.children filename = some ds) :
    (Phrase.both first second).children filename = some (cs ++ ds) :=
  joined_some hfirst hsecond

theorem children_inlined {phrase : Phrase c.pattern} {cs : List Child}
    (h : phrase.children filename = some cs) (hc : c.isInlined = true) :
    (Phrase.construct c phrase).children filename = some cs := by
  rw [children, h]
  simp only [hc, if_true, Option.bind_eq_bind, Option.bind_some, Option.pure_def]

theorem children_construct {phrase : Phrase c.pattern} {cs : List Child} {child : Child}
    (h : phrase.children filename = some cs) (hc : c.isInlined = false)
    (hchild : transform (tokensSpan filename phrase.tokens) c cs = some child) :
    (Phrase.construct c phrase).children filename = some [child] := by
  rw [children, h]
  simp [hc, hchild]

theorem tree_of_children {phrase : Phrase p} {n : Node}
    (h : phrase.children filename = some [.value (.node n)]) : phrase.tree filename = some n := by
  rw [tree, h]

/-- A construct that makes a tuple of its parts is made of the elements. -/
theorem children_inner {phrase : Phrase (.construct c)} {vs : List Value}
    (hc : c.isInlined = false)
    (htuple : ∀ span cs, transform span c cs =
      (Child.values? cs).bind fun vs => some (.value (.tuple vs)))
    (h : phrase.children filename = some [.value (.tuple vs)]) :
    phrase.inner.children filename = some (vs.map .value) := by
  match phrase with
  | .construct _ phrase =>
      rw [children] at h
      obtain ⟨cs, hcs, hmade⟩ := Option.bind_eq_some_iff.1 h
      -- a tuple has only values for elements, so that no token was left
      simp [hc, htuple, Value.tuple, Option.bind_eq_some_iff] at hmade
      obtain rfl := Child.values?_eq_some hmade
      exact hcs

end Phrase

end Reference

/-! ## Phrases put together from the right -/

theorem itemsPhrase_children (item : Phrase (.construct .item))
    (more : Phrase (Nonterminal.image .moreItems)) :
    (itemsPhrase item more).children filename =
      joined (item.children filename) (more.children filename) := by
  match more with
  | .absent => exact (nil_joined _).trans (joined_nil _).symm
  | .present (.both newline (.both lines last)) =>
      show joined (joined (joined _ _) _) _ = joined _ (joined _ (joined _ _))
      rw [joined_assoc, joined_assoc]

theorem bodyPhrase_children (statement : Phrase (.construct .statement))
    (newline : Phrase (.token .newline)) (lines : Phrase (Construct.pattern .body)) :
    (bodyPhrase statement newline lines).children filename =
      joined (statement.children filename)
        (joined (newline.children filename) (lines.children filename)) := by
  match lines with
  | .both lines trailing =>
      show joined (joined (joined _ _) _) _ = joined _ (joined _ (joined _ _))
      rw [joined_assoc, joined_assoc]

theorem armPhrase_children (statement : Phrase (.construct .statement))
    (more : Phrase (Nonterminal.image .moreArmLines)) :
    (armPhrase statement more).children filename =
      joined (statement.children filename) (more.children filename) := by
  match more with
  | .absent => exact (nil_joined _).trans (joined_nil _).symm
  | .present (.both newline (.left (.both lines trailing))) =>
      show joined (joined (joined _ _) _) _ = joined _ (joined _ (joined _ _))
      rw [joined_assoc, joined_assoc]
  | .present (.both newline (.right (.both lines last))) =>
      show joined (joined (joined _ _) _) _ = joined _ (joined _ (joined _ _))
      rw [joined_assoc, joined_assoc]

theorem trailingArmPhrase_children (trailing : Phrase (.construct .trailingExpression))
    (newline : Phrase (.perhaps (.token .newline))) :
    (trailingArmPhrase trailing newline).children filename =
      joined (trailing.children filename) (newline.children filename) := by
  match newline with
  | .absent => exact (nil_joined _).trans (joined_nil _).symm
  | .present newline => exact nil_joined _

theorem nextListed_children {p : Pattern} (comma : Phrase (.token .comma))
    (list : Phrase (.listed p)) :
    (nextListed comma list).children filename = list.children filename := by
  match comma, list with
  | .token _ _ _, .both first later => exact (joined_assoc _ _ _).trans (nil_joined _)

theorem manyOfOneOrMore_children {p : Pattern} (lines : Phrase (.oneOrMore p)) :
    (manyOfOneOrMore lines).children filename = lines.children filename := by
  match lines with
  | .both first later => rfl

theorem nextTerms_children (operator : Phrase (.construct .operator))
    (chain : Phrase (Construct.pattern .expression)) :
    (nextTerms operator chain).children filename =
      joined (operator.children filename) (chain.children filename) := by
  match chain with
  | .both term later => exact joined_assoc _ _ _

theorem chainPhrase_children {term : Phrase (.construct .term)}
    {operator : Phrase (.construct .operator)} {chain : Phrase (Construct.pattern .expression)}
    {cs : List Child} {child : Child}
    (h : joined (term.children filename)
      (joined (operator.children filename) (chain.children filename)) = some cs)
    (hchild : transform (tokensSpan filename (chainPhrase term operator chain).tokens)
      .expression cs = some child) :
    (chainPhrase term operator chain).children filename = some [child] := by
  match chain with
  | .both second later =>
      refine children_construct ?_ rfl hchild
      show joined _ (joined (joined _ _) _) = some cs
      rw [joined_assoc]
      exact h

theorem armBodyPhrase_children {lines : Phrase armLinesPattern} {cs : List Child} {child : Child}
    (h : lines.children filename = some cs)
    (hchild : transform (tokensSpan filename (armBodyPhrase lines).tokens) .body cs =
      some child) : (armBodyPhrase lines).children filename = some [child] := by
  match lines with
  | .left lines => exact children_construct h rfl hchild
  | .right lines => exact children_construct h rfl hchild

/-! ## How children show a meaning -/

/-- Statements are no expressions, and what gives a body its value is one. -/
def Lines.Sorted (lines : Lines) : Prop :=
  (∀ statement ∈ lines.statements, statement.isExpr = false) ∧
    ∀ trailing ∈ lines.trailing, trailing.isExpr = true

/-- The nodes of lines, in order. -/
def Lines.nodes (lines : Lines) : List Node := lines.statements ++ lines.trailing.toList

/-- Values that show lines: the nodes of the lines, with traces of absence among them. -/
def Lines.ShownBy (lines : Lines) (vs : List Value) : Prop :=
  vs.filter (fun v => !v.isAbsent) = lines.nodes.map .node ∧ lines.Sorted

/-- Values that show a chain: terms, with the operators between them. -/
def Chain.ShownBy (chain : Chain) (vs : List Value) : Prop :=
  evens vs = chain.terms.map .node ∧ odds vs = chain.operators.map .operator

/-- Values that show what a chain goes on with: an operator first. -/
def Chain.ContinuedBy (chain : Chain) (vs : List Value) : Prop :=
  evens vs = chain.operators.map .operator ∧ odds vs = chain.terms.map .node

/-- The children of a phrase show a meaning. -/
def Nonterminal.Shows (filename : Option String) :
    (x : Nonterminal) → x.Meaning → Phrase x.image → Prop
  | .program, n, phrase | .loneExpression, n, phrase | .item, n, phrase
  | .functionDecl, n, phrase | .typeDecl, n, phrase | .typeOption, n, phrase
  | .typeExpr, n, phrase | .body, n, phrase | .target, n, phrase | .assignedValue, n, phrase
  | .caseOption, n, phrase | .pattern, n, phrase | .arm, n, phrase | .armBody, n, phrase
  | .expression, n, phrase | .term, n, phrase | .reference, n, phrase | .number, n, phrase =>
      phrase.children filename = some [.value (.node n)]
  | .statement, n, phrase | .assignment, n, phrase | .caseExpr, n, phrase | .call, n, phrase =>
      phrase.children filename = some [.value (.node n)] ∧ Node.isExpr n = false
  | .trailing, n, phrase =>
      phrase.children filename = some [.value (.node n)] ∧ Node.isExpr n = true
  | .items, ns, phrase | .moreItems, ns, phrase | .typeOptions, ns, phrase
  | .moreTypeOptions, ns, phrase | .moreTypeExprs, ns, phrase | .caseOptions, ns, phrase
  | .moreCaseOptions, ns, phrase | .moreArguments, ns, phrase =>
      phrase.children filename = some ((List.map Value.node ns).map .value)
  | .typeExprs, ns, phrase | .arguments, ns, phrase =>
      phrase.children filename = some [.value (.nodes ns)]
  | .typeArguments, ns, phrase | .callArguments, ns, phrase =>
      ∃ v, phrase.children filename = some [.value v] ∧ v.orEmpty = .nodes ns
  | .names, ss, phrase => phrase.children filename = some [.value (.names ss)]
  | .moreNames, ss, phrase =>
      phrase.children filename = some ((List.map Value.text ss).map .value)
  | .typeParameters, ss, phrase | .optionalNames, ss, phrase | .bindings, ss, phrase =>
      ∃ v, phrase.children filename = some [.value v] ∧ v.orEmpty = .names ss
  | .bodyLines, lines, phrase | .armLines, lines, phrase | .moreArmLines, lines, phrase =>
      ∃ vs : List Value, phrase.children filename = some (vs.map .value) ∧ Lines.ShownBy lines vs
  | .chain, c, phrase =>
      ∃ vs : List Value, phrase.children filename = some (vs.map .value) ∧ Chain.ShownBy c vs
  | .moreChain, c, phrase =>
      ∃ vs : List Value, phrase.children filename = some (vs.map .value) ∧ Chain.ContinuedBy c vs
  | .optionalNewline, _, phrase => phrase.children filename = some []
  | .sign, t, phrase => phrase.children filename = some [.token t]
  | .operator, o, phrase => phrase.children filename = some [.value (.operator o)]
  | .name, s, phrase => phrase.children filename = some [.value (.text s)]

/-- The same for symbols: a token shows itself if it is kept. -/
def Symbol.Shows (filename : Option String) : (s : Symbol) → s.Meaning → Phrase s.image → Prop
  | .tok kind, t, phrase =>
      phrase.children filename = some (if kind.isKept then [.token t] else [])
  | .sub x, m, phrase => x.Shows filename m phrase

/-- The children of some phrases show meanings one after another. -/
def Images.Show (filename : Option String) :
    {ss : List Symbol} → Meanings ss → Images ss → Prop
  | [], _, _ => True
  | s :: _, ms, images =>
      s.Shows filename ms.1 images.1 ∧ Images.Show filename ms.2 images.2

/-! ## Tuples, lines and chains -/

theorem Value.orEmpty_tuple (vs : List Value) : (Value.tuple vs).orEmpty = .tuple vs := by
  cases vs <;> rfl

namespace Lines

theorem shownBy_nil : (Lines.mk [] none).ShownBy [] := ⟨rfl, by simp [Sorted]⟩

theorem shownBy_absent : (Lines.mk [] none).ShownBy [.absent] := ⟨rfl, by simp [Sorted]⟩

theorem shownBy_trailing {n : Node} (h : n.isExpr = true) :
    (Lines.mk [] (some n)).ShownBy [.node n] := ⟨rfl, by simp [Sorted, h]⟩

theorem ShownBy.after {lines : Lines} {vs : List Value} {n : Node} (hn : n.isExpr = false)
    (h : lines.ShownBy vs) : (Lines.after n lines).ShownBy (.node n :: vs) := by
  obtain ⟨hnodes, hstatements, htrailing⟩ := h
  refine ⟨congrArg (Value.node n :: ·) hnodes, ?_, htrailing⟩
  intro statement hstatement
  rcases List.mem_cons.1 hstatement with rfl | hlater
  · exact hn
  · exact hstatements statement hlater

/-- An expression at the end of lines is what gives them their value. -/
theorem splitTrailing_nodes {lines : Lines} (h : lines.Sorted) :
    splitTrailing (lines.nodes.map .node) =
      (lines.statements.map .node, .optionalNode lines.trailing) := by
  obtain ⟨statements, trailing⟩ := lines
  cases trailing with
  -- the last statement is not taken for an expression
  | none =>
      rcases List.eq_nil_or_concat statements with rfl | ⟨before, last, rfl⟩
      · rfl
      · have hlast : last.isExpr = false := h.1 last (by simp)
        simp [splitTrailing, nodes, hlast, Value.optionalNode]
  | some n =>
      have hn : n.isExpr = true := h.2 n rfl
      simp [splitTrailing, nodes, hn, Value.optionalNode]

theorem ShownBy.transform {lines : Lines} {vs : List Value} (h : lines.ShownBy vs)
    (span : Option Span) :
    transform span .body (vs.map .value) = some (.value (.node (lines.node span))) := by
  obtain ⟨hnodes, hsorted⟩ := h
  simp only [Reference.transform, Child.values?_map, hnodes, splitTrailing_nodes hsorted,
    Option.bind_eq_bind, Option.bind_some, Option.pure_def]
  rfl

end Lines

namespace Chain

theorem ContinuedBy.after {chain : Chain} {vs : List Value} (h : chain.ContinuedBy vs)
    (term : Node) : (Chain.mk (term :: chain.terms) chain.operators).ShownBy (.node term :: vs) :=
  ⟨congrArg (Value.node term :: ·) h.2, h.1⟩

theorem ShownBy.after {chain : Chain} {vs : List Value} (h : chain.ShownBy vs)
    (operator : Operator) :
    (Chain.mk chain.terms (operator :: chain.operators)).ContinuedBy (.operator operator :: vs) :=
  ⟨congrArg (Value.operator operator :: ·) h.2, h.1⟩

theorem ShownBy.transform {chain : Chain} {vs : List Value} (h : chain.ShownBy vs)
    (span : Option Span) :
    transform span .expression (vs.map .value) = some (.value (.node (chain.node span))) := by
  simp only [Reference.transform, Child.values?_map, h.1, h.2, Option.bind_eq_bind,
    Option.bind_some, Option.pure_def]
  rfl

end Chain

/-! ## Signs of operators -/

theorem transform_operator {t : Terminal} {o : Operator} {span : Option Span} {token : Token}
    {phrase : Phrase (.token t)} (ht : t ∈ Terminal.symbols) (hkept : t.isKept = true)
    (ho : o.sign = String.ofList t.spelling)
    (h : phrase.children filename = some (if t.isKept then [.token token] else []))
    (hspelled : ∀ t ∈ phrase.tokens, t.IsSpelled) :
    transform span .operator [.token token] = some (.value (.operator o)) := by
  match phrase with
  | .token _ token' kind_eq =>
      obtain rfl : token' = token := by simpa [children, hkept] using h
      have htext : token'.name = o.sign := by
        rw [Token.name, hspelled token' List.mem_cons_self (kind_eq ▸ ht), kind_eq, ho]
      have hsign : Operator.ofSign? o.sign = some o := by cases o <;> decide
      simp [transform, htext, hsign]

/-! ## Rules -/

/-- If the phrases of the parts of a rule show what the parts mean, the phrase that the rule makes
shows what the rule means. -/
theorem ruleImage_shows {x : Nonterminal} (rule : Rule x) (span : Option Span)
    (meanings : Meanings rule.parts) (images : Images rule.parts)
    (hspan : span = tokensSpan filename (ruleImage rule images).tokens)
    (hspelled : ∀ t ∈ (ruleImage rule images).tokens, t.IsSpelled)
    (h : Images.Show filename meanings images) :
    x.Shows filename (ruleMeaning rule span meanings) (ruleImage rule images) := by
  cases rule with
  | program =>
      obtain ⟨hnewline, hitems, -⟩ := h
      refine children_construct (children_both hnewline hitems) rfl ?_
      rw [hspan]
      exact congrArg (Option.bind · _) (Child.values?_map _)
  | noItems | lastItem | noNewline | lastName | lastTypeOption | lastTypeExpr | lastCaseOption
  | lastArgument => rfl
  | newline => exact h.1
  | someItems =>
      obtain ⟨hitem, hmore, -⟩ := h
      exact (itemsPhrase_children _ _).trans (joined_some hitem hmore)
  | nextItems => exact children_both h.1 h.2.1
  | loneExpression =>
      exact children_construct (children_both h.1 (children_both h.2.1 h.2.2.1)) rfl rfl
  | functionItem | typeItem => exact children_inlined h.1 rfl
  | assignmentItem => exact children_inlined h.1.1 rfl
  | functionDecl =>
      obtain ⟨hname, hopening, ⟨v, hv, hnames⟩, hclosing, hbrace, hnewline, hbody, hbrace', -⟩ := h
      refine children_construct (children_both hname (children_both hopening
        (children_both hv (children_both hclosing (children_both hbrace (children_both hnewline
          (children_both hbody hbrace'))))))) rfl ?_
      show some (Child.value (.node (.functionDecl _ _ v.orEmpty _))) = _
      rw [hnames, hspan]
      rfl
  | typeDecl =>
      obtain ⟨hkeyword, hname, ⟨v, hv, hnames⟩, hbrace, hnewline, hoptions, hbrace', -⟩ := h
      refine children_construct (children_both hkeyword (children_both hname (children_both hv
        (children_both hbrace (children_both hnewline (children_both hoptions hbrace')))))) rfl ?_
      show (Child.values? (_ ++ [])).bind (fun options =>
        some (Child.value (.node (.typeDecl _ _ v.orEmpty (.tuple options))))) = _
      rw [List.append_nil, hnames, hspan]
      exact congrArg (Option.bind · _) (Child.values?_map _)
  | noTypeParameters | noNames | noTypeArguments | noBindings | noArguments =>
      exact ⟨.absent, rfl, rfl⟩
  | typeParameters =>
      obtain ⟨hopening, ⟨v, hv, hnames⟩, hclosing, -⟩ := h
      refine ⟨v.orEmpty, children_construct (children_both hopening (children_both hv hclosing))
        rfl rfl, ?_⟩
      rw [hnames]
      exact Value.orEmpty_tuple _
  | someNames | someArguments => exact ⟨_, h.1, Value.orEmpty_tuple _⟩
  | names =>
      refine children_construct (children_both h.1 h.2.1) rfl ?_
      exact congrArg (Option.bind · _) (Child.values?_map (_ :: _))
  | nextNames | nextTypeExprs | nextArguments =>
      exact (nextListed_children _ _).trans (children_inner rfl (fun _ _ => rfl) h.2.1)
  | typeOptions | caseOptions => exact children_both (children_both h.1 h.2.1) h.2.2.1
  | nextTypeOptions | nextCaseOptions => exact (manyOfOneOrMore_children _).trans h.1
  | typeOption =>
      obtain ⟨hname, ⟨v, hv, harguments⟩, -⟩ := h
      refine children_construct (children_both hname hv) rfl ?_
      show some (Child.value (.node (.typeOption _ _ v.orEmpty))) = _
      rw [harguments, hspan]
      rfl
  | typeArguments =>
      exact ⟨_, children_both h.1 (children_both h.2.1 h.2.2.1), Value.orEmpty_tuple _⟩
  | typeExprs | arguments =>
      refine children_construct (children_both h.1 h.2.1) rfl ?_
      exact congrArg (Option.bind · _) (Child.values?_map (_ :: _))
  | typeExpr =>
      obtain ⟨hname, ⟨v, hv, harguments⟩, -⟩ := h
      refine children_construct (children_both hname hv) rfl ?_
      show some (Child.value (.node (.typeExpr _ _ v.orEmpty))) = _
      rw [harguments, hspan]
      rfl
  | body =>
      obtain ⟨⟨vs, hvs, hlines⟩, -⟩ := h
      rw [hspan]
      exact children_construct hvs rfl (hlines.transform _)
  | noLines | noArmLines => exact ⟨[.absent], rfl, Lines.shownBy_absent⟩
  | trailingLine =>
      obtain ⟨⟨htrailing, hexpr⟩, hnewline, -⟩ := h
      -- there are no lines before the expression
      exact ⟨[.node _], (nil_joined _).trans (joined_some htrailing hnewline),
        Lines.shownBy_trailing hexpr⟩
  | statementLine =>
      obtain ⟨⟨hstatement, hexpr⟩, hnewline, ⟨vs, hvs, hlines⟩, -⟩ := h
      exact ⟨.node _ :: vs, (bodyPhrase_children _ _ _).trans
        (joined_some hstatement (joined_some hnewline hvs)), hlines.after hexpr⟩
  | assignmentStatement | callStatement | caseStatement =>
      exact ⟨children_inlined h.1.1 rfl, h.1.2⟩
  | assignment =>
      rw [hspan]
      exact ⟨children_construct (children_both h.1 h.2.1) rfl rfl, rfl⟩
  | bindTarget | updateTarget =>
      rw [hspan]
      exact children_inlined (children_construct (children_both h.1 h.2.1) rfl rfl) rfl
  | mutableTarget =>
      rw [hspan]
      exact children_inlined
        (children_construct (children_both h.1 (children_both h.2.1 h.2.2.1)) rfl rfl) rfl
  | caseValue => exact children_inlined h.1.1 rfl
  | expressionValue => exact children_inlined h.1 rfl
  | chainTrailing =>
      obtain ⟨hterm, hoperator, ⟨vs, hvs, hchain⟩, -⟩ := h
      rw [hspan]
      -- an operator before the chain, and the first term before that
      have hshown := (hchain.after meanings.2.1).after meanings.1
      exact ⟨chainPhrase_children (joined_some hterm (joined_some hoperator hvs))
        (hshown.transform _), rfl⟩
  | referenceTrailing | numberTrailing =>
      rw [hspan]
      exact ⟨children_construct h.1 rfl rfl, rfl⟩
  | parenthesisedTrailing =>
      rw [hspan]
      exact ⟨children_construct (children_both h.1 (children_both h.2.1 h.2.2.1)) rfl rfl, rfl⟩
  | caseExpr =>
      obtain ⟨hkeyword, hscrutinee, hbrace, hnewline, hoptions, hbrace', -⟩ := h
      refine ⟨children_construct (children_both hkeyword (children_both hscrutinee
        (children_both hbrace (children_both hnewline (children_both hoptions hbrace')))))
          rfl ?_, rfl⟩
      show (Child.values? (_ ++ [])).bind (fun options =>
        some (Child.value (.node (.caseOf _ _ (.tuple options))))) = _
      rw [List.append_nil, hspan]
      exact congrArg (Option.bind · _) (Child.values?_map _)
  | caseOption =>
      rw [hspan]
      exact children_construct (children_both h.1 (children_both h.2.1 h.2.2.1)) rfl rfl
  | pattern =>
      obtain ⟨hname, ⟨v, hv, hnames⟩, -⟩ := h
      refine children_construct (children_both hname hv) rfl ?_
      show some (Child.value (.node (.casePattern _ _ v.orEmpty))) = _
      rw [hnames, hspan]
      rfl
  | bindings => exact ⟨_, children_both h.1 (children_both h.2.1 h.2.2.1), Value.orEmpty_tuple _⟩
  | expressionArm => exact h.1
  | bodyArm =>
      obtain ⟨hbrace, hnewline, hbody, hbrace', -⟩ := h
      exact children_inlined (children_both hbrace (children_both hnewline
        (children_both hbody hbrace'))) rfl
  | armBody =>
      obtain ⟨⟨vs, hvs, hlines⟩, -⟩ := h
      rw [hspan]
      exact armBodyPhrase_children hvs (hlines.transform _)
  | trailingArmLine =>
      obtain ⟨⟨htrailing, hexpr⟩, hnewline, -⟩ := h
      exact ⟨[.node _], (trailingArmPhrase_children _ _).trans (joined_some htrailing hnewline),
        Lines.shownBy_trailing hexpr⟩
  | statementArmLine =>
      obtain ⟨⟨hstatement, hexpr⟩, ⟨vs, hvs, hlines⟩, -⟩ := h
      exact ⟨.node _ :: vs, (armPhrase_children _ _).trans (joined_some hstatement hvs),
        hlines.after hexpr⟩
  | lastArmLine => exact ⟨[], rfl, Lines.shownBy_nil⟩
  | nextArmLines =>
      obtain ⟨hnewline, ⟨vs, hvs, hlines⟩, -⟩ := h
      exact ⟨vs, children_both hnewline hvs, hlines⟩
  | expression =>
      obtain ⟨⟨vs, hvs, hchain⟩, -⟩ := h
      rw [hspan]
      exact children_construct hvs rfl (hchain.transform _)
  | chain =>
      obtain ⟨hterm, ⟨vs, hvs, hchain⟩, -⟩ := h
      exact ⟨.node _ :: vs, children_both hterm hvs, hchain.after _⟩
  | lastTerm => exact ⟨[], rfl, rfl, rfl⟩
  | nextTerms =>
      obtain ⟨hoperator, ⟨vs, hvs, hchain⟩, -⟩ := h
      exact ⟨.operator _ :: vs, (nextTerms_children _ _).trans (joined_some hoperator hvs),
        hchain.after _⟩
  | callTerm => exact children_inlined h.1.1 rfl
  | referenceTerm | numberTerm => exact children_inlined h.1 rfl
  | parenthesisedTerm =>
      exact children_inlined (children_both h.1 (children_both h.2.1 h.2.2.1)) rfl
  | call =>
      obtain ⟨hname, hopening, ⟨v, hv, harguments⟩, hclosing, -⟩ := h
      refine ⟨children_construct (children_both hname (children_both hopening
        (children_both hv hclosing))) rfl ?_, rfl⟩
      show some (Child.value (.node (.call _ _ v.orEmpty))) = _
      rw [harguments, hspan]
      rfl
  | reference =>
      rw [hspan]
      exact children_construct h.1 rfl rfl
  | unsignedNumber =>
      rw [hspan]
      exact children_construct (children_both rfl h.1) rfl rfl
  | signedNumber =>
      rw [hspan]
      exact children_construct (children_both h.1 h.2.1) rfl rfl
  | plusSign | minusSign => exact children_construct h.1 rfl rfl
  | addOperator | subtractOperator | multiplyOperator | divideOperator | powerOperator
  | moduloOperator | equalOperator | notEqualOperator | lessEqualOperator
  | greaterEqualOperator | lessOperator | greaterOperator =>
      exact children_construct h.1 rfl (transform_operator (by decide) rfl rfl h.1 hspelled)
  | identifierName | typeName | caseName | mutName => exact children_construct h.1 rfl rfl

/-! ## Derivations -/

theorem tokensExtent_append (ts us : List Token) :
    tokensExtent (ts ++ us) = Extent.cover (tokensExtent ts) (tokensExtent us) := by
  cases ts with
  | nil => rfl
  | cons t ts =>
      cases us with
      | nil => simp [tokensExtent, Extent.cover]
      | cons u us =>
          have hlast := List.getLast_append_right (l := t :: ts) (List.cons_ne_nil u us)
          exact congrArg (fun last : Token => some (Extent.mk t.start last.stop)) hlast

mutual

/-- A derivation takes up the stretch of text of its tokens. -/
theorem Derivation.understand_extent : {s : Symbol} → (d : Derivation s) →
    (d.understand filename).extent = tokensExtent d.tokens
  | _, .token _ _ _ => rfl
  | _, .node _ parts => parts.understand_extent

theorem Derivations.understand_extent : {ss : List Symbol} → (ds : Derivations ss) →
    (ds.understand filename).extent = tokensExtent ds.tokens
  | _, .nil => rfl
  | _, .cons first rest => by
      rw [Derivations.tokens, tokensExtent_append, ← first.understand_extent,
        ← rest.understand_extent]
      rfl

end

mutual

/-- The children of the phrase of a derivation show what it means. -/
theorem Derivation.shows : {s : Symbol} → (d : Derivation s) →
    (∀ t ∈ d.tokens, t.IsSpelled) → s.Shows filename (d.understand filename).meaning d.phrase
  | _, .token _ _ _, _ => rfl
  | _, .node rule parts, hspelled => by
      have htokens : (ruleImage rule parts.phrases).tokens = parts.tokens :=
        (ruleImage_tokens rule parts.phrases).trans parts.phrases_tokens
      refine ruleImage_shows rule _ _ parts.phrases ?_ ?_ (parts.show_all hspelled)
      · rw [htokens, tokensSpan, ← parts.understand_extent]
      · rw [htokens]
        exact hspelled

theorem Derivations.show_all : {ss : List Symbol} → (ds : Derivations ss) →
    (∀ t ∈ ds.tokens, t.IsSpelled) →
      Images.Show filename (ds.understand filename).meanings ds.phrases
  | _, .nil, _ => trivial
  | _, .cons first rest, hspelled =>
      ⟨first.shows fun t ht => hspelled t (List.mem_append_left _ ht),
        rest.show_all fun t ht => hspelled t (List.mem_append_right _ ht)⟩

end

/-- The tree of the phrase of a whole text is what its derivation means. -/
theorem Start.tree_phrase (start : Start) (d : Derivation start.goal)
    (hspelled : ∀ t ∈ d.tokens, t.IsSpelled) :
    (start.phrase d).tree filename = some (start.node (d.understand filename).meaning) := by
  cases start with
  | program => exact tree_of_children (d.shows hspelled)
  | expression => exact tree_of_children (d.shows hspelled)

end Spruce
