import Spruce.Proofs.Grammar.Parentheses
import Spruce.Proofs.Meaning.Chains
import Spruce.Proofs.Meaning.Resolved
import Spruce.Proofs.Meaning.Slices
import Spruce.Proofs.Precedence.Congruence

set_option autoImplicit false

/-!
# Slices of operations

An operation spans its operands from the first to the last, and no operand in parentheses spans
these. So where the first or the last term of an operation is in parentheses, its span starts or
ends inside of them, and what it names is no expression; where neither is, that reads as the
operation by itself (`parse_slice_operation`).

Which tokens the tree of a term spans is told with the parentheses that are open at either end
(`Derivation.isSpanned`). Between two different terms no parentheses are open, so that a stretch
from one to the other closes what it opens only if it leaves out nothing of them
(`exists_spansClipped`).

Main definitions: `Node.HasOperation` and `Text.ResolvesTo`.
-/

namespace Spruce

variable {filename filename' : Option String}

/-! ## Trees of chains -/

/-- The tree of a term. -/
def Derivation.tree (filename : Option String) (d : Derivation (.sub .term)) : Node :=
  (d.term filename).regroup splitTree

/-- The operation of an operator. -/
def Derivation.operation (filename : Option String) (d : Derivation (.sub .operator)) :
    Operation := (d.operator filename).operation

/-- The tree of an expression. -/
def expressionTree (filename : Option String) (first : Derivation (.sub .term))
    (rest : LaterTerms) : Node :=
  (chainExpr none (first.term filename) (laterMeanings filename rest)).regroup splitTree

/-- The tree of an expression splits the trees of its terms. -/
theorem expressionTree_eq (first : Derivation (.sub .term)) (rest : LaterTerms) :
    expressionTree filename first rest = splitTree (first.tree filename)
      (rest.map (Prod.map (Derivation.operation filename) (Derivation.tree filename))) := by
  rw [expressionTree, regroup_chainExpr, laterMeanings, List.map_map, Prod.map_comp_map]
  rfl

/-- A tree spans a stretch of some tokens that starts where they start or inside of parentheses, as
`first` says, and that ends where they end or inside of parentheses, as `last` says. -/
def Node.SpansClipped (filename : Option String) (first last : Bool) (ts : List Token)
    (tree : Node) : Prop :=
  ∃ us, us ≠ [] ∧ Clipped first last ts us ∧ tree.span = tokensSpan filename us

/-- A term in parentheses. -/
def Derivation.isParenthesised (filename : Option String) (d : Derivation (.sub .term)) : Bool :=
  (d.term filename).isExpr

/-- The tree of a term spans its tokens, and if it is in parentheses a stretch inside of these. -/
def Derivation.IsSpanned (filename : Option String) (d : Derivation (.sub .term)) : Prop :=
  (d.tree filename).SpansClipped filename (d.isParenthesised filename) (d.isParenthesised filename)
    d.tokens

theorem Derivation.IsSpanned.exists_span {d : Derivation (.sub .term)}
    (h : d.IsSpanned filename) : ∃ s, (d.tree filename).span = some s := by
  obtain ⟨us, hne, -, hspan⟩ := h
  obtain ⟨s, hs⟩ := exists_tokensSpan filename (List.head_mem hne)
  exact ⟨s, hspan.trans hs⟩

section

variable {first : Derivation (.sub .term)} {rest : LaterTerms}

/-- The tree of an expression spans its terms from the first to the last. -/
theorem span_expressionTree
    (h : ∀ d ∈ first :: rest.map Prod.snd, Derivation.IsSpanned filename d) :
    (expressionTree filename first rest).span =
      Span.join (first.tree filename).span ((lastOperand first rest).tree filename).span := by
  have hsnd : (rest.map (Prod.map (Derivation.operation filename) (Derivation.tree filename))).map
      Prod.snd = (rest.map Prod.snd).map (Derivation.tree filename) := by
    rw [List.map_map, List.map_map]
    rfl
  rw [expressionTree_eq, (joins_splitTree _ _).span_eq, lastOperand_map]
  rw [hsnd, ← List.map_cons]
  exact List.forall_mem_map.2 fun d hd => (h d hd).exists_span

/-- An expression of one term has the tree of the term. -/
theorem spansClipped_single (h : first.IsSpanned filename) :
    (expressionTree filename first []).SpansClipped filename (first.isParenthesised filename)
      (first.isParenthesised filename) (expressionDerivation first []).tokens := by
  rw [expressionTree_eq, List.map_nil, splitTree_nil, tokens_expressionDerivation, laterTokens,
    List.flatMap_nil, List.append_nil]
  exact h

/-- The tree of an operation spans a stretch that closes the parentheses that it opens only if
neither the first nor the last term is in parentheses. -/
theorem exists_spansClipped (hne : rest ≠ [])
    (h : ∀ d ∈ first :: rest.map Prod.snd, Derivation.IsSpanned filename d) :
    ∃ us, us ≠ [] ∧ Clipped (first.isParenthesised filename)
        ((lastOperand first rest).isParenthesised filename)
          (expressionDerivation first rest).tokens us ∧
      (expressionTree filename first rest).span = tokensSpan filename us ∧
      (depthAfter 0 us = some 0 → first.isParenthesised filename = false ∧
        (lastOperand first rest).isParenthesised filename = false) := by
  -- the last term is another than the first, and no parentheses are open between them
  obtain ⟨before, ⟨operator, term⟩, rfl⟩ := (List.eq_nil_or_concat' rest).resolve_left hne
  have hlast : lastOperand first (before ++ [(operator, term)]) = term :=
    lastOperand_append_cons first term operator before []
  have hspan := span_expressionTree h
  rw [hlast] at hspan ⊢
  obtain ⟨us, hus, hclipped, hleft⟩ := h first List.mem_cons_self
  obtain ⟨vs, hvs, hclipped', hright⟩ := h term (List.mem_cons_of_mem _ (by simp))
  have hbetween : depthAfter 0 (laterTokens before ++ operator.tokens) = some 0 := by
    have hbefore := (expressionDerivation first before).depthAfter_tokens 0
    rw [tokens_expressionDerivation, depthAfter_append, first.depthAfter_tokens] at hbefore
    rw [depthAfter_append]
    exact (congrArg (Option.bind · _) hbefore).trans (operator.depthAfter_tokens 0)
  obtain ⟨mid, hjoined, hclosed⟩ :=
    hclipped.join hclipped' (first.depthAfter_tokens 0) hbetween
  refine ⟨us ++ (mid ++ vs), List.append_ne_nil_of_left_ne_nil hus _, ?_, ?_, hclosed⟩
  · have hlater : (expressionDerivation first (before ++ [(operator, term)])).tokens =
        first.tokens ++ ((laterTokens before ++ operator.tokens) ++ term.tokens) := by
      simp only [tokens_expressionDerivation, laterTokens, List.flatMap_append,
        List.flatMap_singleton, List.append_assoc]
    rw [hlater]
    exact hjoined
  · rw [hspan, hleft, hright, join_tokensSpan hus hvs]

/-- The tree of any expression spans a stretch of its tokens. -/
theorem spansClipped_expression
    (h : ∀ d ∈ first :: rest.map Prod.snd, Derivation.IsSpanned filename d) :
    ∃ p q, (expressionTree filename first rest).SpansClipped filename p q
      (expressionDerivation first rest).tokens := by
  by_cases hne : rest = []
  · subst hne
    exact ⟨_, _, spansClipped_single (h first List.mem_cons_self)⟩
  · obtain ⟨us, hus, hclipped, hspan, -⟩ := exists_spansClipped hne h
    exact ⟨_, _, us, hus, hclipped, hspan⟩

end

/-! ## Trees of terms -/

theorem span_regroup {chain : Node → List Pair → Node} {n : Node} (h : n.isExpr = false) :
    (n.regroup chain).span = n.span := by
  rw [Node.regroup.eq_def]
  split
  · exact Bool.noConfusion h
  · rfl
  · rfl

/-- The tree of a term that is not in parentheses spans the tokens that its node was made of. -/
theorem Derivation.isSpanned_of_node {d : Derivation (.sub .term)} {x : Nonterminal}
    (rule : Rule x) (parts : Derivations rule.parts) (hmakes : rule.makesNode = true)
    (htokens : d.tokens = parts.tokens)
    (hnode : x.nodes ((Derivation.node rule parts).understand filename).meaning =
      [d.term filename]) (hexpr : (d.term filename).isExpr = false) : d.IsSpanned filename := by
  obtain ⟨n, hn, hspan, -⟩ := Derivation.exists_node_understand hmakes parts
  obtain rfl : d.term filename = n := List.singleton_inj.1 (hnode.symm.trans hn)
  rw [IsSpanned, isParenthesised, hexpr]
  refine ⟨d.tokens, d.tokens_ne_nil rfl, .refl _, ?_⟩
  rw [tree, span_regroup hexpr, hspan, htokens]

/-- The tree of every term spans its tokens, and if it is in parentheses a stretch inside of
these. -/
theorem Derivation.isSpanned (filename : Option String) :
    (d : Derivation (.sub .term)) → d.IsSpanned filename
  | .node .callTerm (.cons (.node .call parts) .nil) =>
      isSpanned_of_node .call parts rfl (List.append_nil _) rfl rfl
  | .node .referenceTerm (.cons (.node .reference parts) .nil) =>
      isSpanned_of_node .reference parts rfl (List.append_nil _) rfl rfl
  | .node .numberTerm (.cons (.node .unsignedNumber parts) .nil) =>
      isSpanned_of_node .unsignedNumber parts rfl (List.append_nil _) rfl rfl
  | .node .numberTerm (.cons (.node .signedNumber parts) .nil) =>
      isSpanned_of_node .signedNumber parts rfl (List.append_nil _) rfl rfl
  | .node .parenthesisedTerm
      (.cons (.token _ t ht) (.cons e (.cons (.token _ t' ht') .nil))) => by
      obtain ⟨first, rest, he⟩ := exists_expressionDerivation e
      have hall : ∀ d ∈ first :: rest.map Prod.snd, Derivation.IsSpanned filename d :=
        fun d hd => d.isSpanned filename
      subst he
      obtain ⟨_, _, us, hne, hclipped, hspan⟩ := spansClipped_expression hall
      obtain ⟨span, hmeaning⟩ := meaning_expressionDerivation filename first rest
      have hterm : (Derivation.node .parenthesisedTerm (.cons (.token _ t ht) (.cons
          (expressionDerivation first rest) (.cons (.token _ t' ht') .nil)))).term filename =
            chainExpr span (first.term filename) (laterMeanings filename rest) := hmeaning
      -- parentheses leave the tree as it is and put a token at either end
      have hbalanced := (expressionDerivation first rest).depthAfter_tokens 0
      rw [IsSpanned, isParenthesised, tree, hterm]
      exact ⟨us, hne, hclipped.parenthesise ht hbalanced,
        (congrArg Node.span (regroup_chainExpr_congr span none _ _)).trans hspan⟩
termination_by d => d.tokens.length
decreasing_by
  have hle := (tokens_isInfix_of_mem hd).length_le
  rw [← he] at hle
  show d.tokens.length < ([t] ++ (e.tokens ++ [t'])).length
  simp only [List.length_append, List.length_singleton]
  omega

/-! ## Slices of operations -/

/-- A stretch of two or more terms of some expression in `e` is regrouped to `b`. -/
def Node.HasOperation (e first : Node) (rest : List (Operator × Node)) (b : Node) : Prop :=
  ∃ span whole others, e.Has (chainExpr span whole others) ∧ Stretch whole others first rest ∧
    rest ≠ [] ∧ b = (chainExpr none first rest).regroup splitTree

/-- The text is accepted as an expression whose tree of operations equals the given one. -/
def Text.ResolvesTo (filename : Option String) (text : Text) (b : Node) : Prop :=
  ∃ m n, (parse .expression filename text).outcome = .ok m ∧ m.group.outcome = .ok n ∧
    n.equal b = true

variable {text : Text} {e first b : Node} {rest : List (Operator × Node)}

/-- The terms of an operation come of derivations whose tokens stand together in the text. -/
theorem Node.HasOperation.exists_derivation (h : (parse .expression filename text).outcome = .ok e)
    (hb : e.HasOperation first rest b) :
    ∃ (d : Derivation (.sub .term)) (ds : LaterTerms), d.term filename = first ∧
      laterMeanings filename ds = rest ∧ (expressionDerivation d ds).IsTight ∧
        (expressionDerivation d ds).tokens <:+: (lex text).tokens := by
  obtain ⟨span, whole, others, hhas, hstretch, -, -⟩ := hb
  obtain ⟨rule, parts, hmakes, hnode, htight, hwithin⟩ := readFrom_of_parse h hhas
  obtain ⟨c, htokens, hc, span', hmeaning⟩ := exists_expression hmakes hnode htight rfl
  obtain ⟨d, ds, rfl⟩ := exists_expressionDerivation c
  obtain ⟨span'', hmeaning'⟩ := meaning_expressionDerivation filename d ds
  have hsame : chainExpr span'' (d.term filename) (laterMeanings filename ds) =
      chainExpr span' whole others := hmeaning'.symm.trans hmeaning
  obtain ⟨rfl, rfl⟩ := chainExpr_inj hsame
  obtain ⟨d', ds', hstretch', rfl, rfl⟩ := hstretch.exists_of_map
  exact ⟨d', ds', rfl, rfl, hstretch'.isTight hc,
    hstretch'.tokens_isInfix.trans (htokens ▸ hwithin)⟩

/-- The tokens of an accepted text close the parentheses that they open. -/
theorem depthAfter_of_parse {start : Start} {n : Node}
    (h : (parse start filename text).outcome = .ok n) :
    depthAfter 0 (lex text).tokens = some 0 := by
  obtain ⟨-, d, htokens, -, -⟩ := parse_eq_ok_iff.1 h
  exact htokens ▸ d.depthAfter_tokens 0

theorem depthAfter_eq_of_bare {n : Nat} {ts us : List Token} (h : bare ts = bare us) :
    depthAfter n ts = depthAfter n us := by
  have hkinds := kinds_eq_of_labels (labels_eq_of_bare h)
  have hmap : ∀ ts, depthAfter n ts = (kinds ts).foldlM (fun n t => t.depth? n) n :=
    fun ts => (List.foldlM_map ..).symm
  rw [hmap, hmap, hkinds]

/-- The text that reads as a stretch resolves to its operation. -/
theorem Text.ReadsAs.resolvesTo {slice : Text}
    (h : slice.ReadsAs .expression filename (chainExpr none first rest)) :
    slice.ResolvesTo filename ((chainExpr none first rest).regroup splitTree) := by
  obtain ⟨m, hm, hequal⟩ := h
  have hgrammatical := grammatical_of_parse hm
  have hterm := hgrammatical.isTerm (.inl rfl)
  exact ⟨m, _, hm, hterm.apply_outcome hgrammatical.isExpr .byPrecedence,
    hterm.equal_regroup equal_splitTree hequal⟩

/-- What the span of an operation names resolves to the operation if its first and last terms are
not in parentheses, and otherwise is not accepted. -/
theorem Node.HasOperation.exists_slice (filename' : Option String)
    (h : (parse .expression filename text).outcome = .ok e)
    (hb : e.HasOperation first rest b) :
    ∃ s, b.span = some s ∧
      (first.isExpr = false ∧ (lastOperand first rest).isExpr = false →
        (text.slice s).ResolvesTo filename' b) ∧
      (first.isExpr = true ∨ (lastOperand first rest).isExpr = true →
        ∀ m, (parse .expression filename' (text.slice s)).outcome ≠ .ok m) := by
  have hrest := (parse_eq_ok_iff.1 h).1
  obtain ⟨d, ds, rfl, rfl, htight, hwithin⟩ := hb.exists_derivation h
  obtain ⟨-, -, -, -, -, hne, rfl⟩ := hb
  have hlast : lastOperand (d.term filename) (laterMeanings filename ds) =
      (lastOperand d ds).term filename := lastOperand_map _ _ _ _
  obtain ⟨us, hus, hclipped, hspan, hclosed⟩ :=
    exists_spansClipped (fun hnil => hne (congrArg (laterMeanings filename) hnil))
      fun d _ => d.isSpanned filename
  rw [hlast]
  obtain ⟨s, hs, hrest', hbare⟩ :=
    exists_bare_slice filename hrest (hclipped.isInfix.trans hwithin) hus
  refine ⟨s, hspan.trans hs, ?_, ?_⟩
  -- the slice has all tokens of the stretch
  · rintro ⟨hfirst, hlast⟩
    rw [Derivation.isParenthesised, Derivation.isParenthesised, hfirst, hlast] at hclipped
    obtain rfl := hclipped.eq
    have hreads : ∃ s, tokensSpan filename (expressionDerivation d ds).tokens = some s ∧
        (text.slice s).ReadsAs .expression filename'
          (chainExpr none (d.term filename) (laterMeanings filename ds)) :=
      parse_slice_expression hrest hwithin htight (meaning_expressionDerivation filename d ds)
    obtain ⟨s', hs', hreads⟩ := hreads
    obtain rfl := Option.some.inj (hs.symm.trans hs')
    exact hreads.resolvesTo
  -- the slice does not close the parentheses that it opens
  · intro hparen m hm
    have hdepth := depthAfter_of_parse hm
    rw [depthAfter_eq_of_bare hbare] at hdepth
    obtain ⟨hfirst, hlast⟩ := hclosed hdepth
    rcases hparen with hparen | hparen
    · exact Bool.noConfusion (hparen.symm.trans hfirst)
    · exact Bool.noConfusion (hparen.symm.trans hlast)

/-- Every operation in the tree of an accepted expression is that of a stretch of terms. What its
span names is accepted and resolves to the same operation if neither the first nor the last of these
terms is in parentheses. Otherwise it is not accepted, as the span starts or ends inside of
parentheses. -/
theorem parse_slice_operation (filename filename' : Option String) (text : Text) (e : Node)
    (h : (parse .expression filename text).outcome = .ok e) :
    ∃ tree, e.group.outcome = .ok tree ∧ ∀ b, tree.Has b → b.type = .binary →
      (∃ first rest, e.HasOperation first rest b) ∧ ∃ s, b.span = some s ∧
        ∀ first rest, e.HasOperation first rest b →
          (first.isExpr = false ∧ (lastOperand first rest).isExpr = false →
            (text.slice s).ResolvesTo filename' b) ∧
          (first.isExpr = true ∨ (lastOperand first rest).isExpr = true →
            ∀ m, (parse .expression filename' (text.slice s)).outcome ≠ .ok m) := by
  have hgrammatical := grammatical_of_parse h
  have hterm := hgrammatical.isTerm (.inl rfl)
  refine ⟨_, hterm.apply_outcome hgrammatical.isExpr .byPrecedence, fun b hb htype => ?_⟩
  obtain ⟨span, whole, others, first, rest, hoperation⟩ := hterm.exists_stretch htype hb
  have hfound : e.HasOperation first rest b := ⟨span, whole, others, hoperation⟩
  obtain ⟨s, hs, -⟩ := hfound.exists_slice filename' h
  refine ⟨⟨first, rest, hfound⟩, s, hs, fun first' rest' hfound' => ?_⟩
  obtain ⟨s', hs', hslice⟩ := hfound'.exists_slice filename' h
  obtain rfl := Option.some.inj (hs.symm.trans hs')
  exact hslice

/-! ## A span that starts inside of parentheses -/

/-- The lexemes of `(a)-b*c`. -/
def productLexemes : List Lexeme :=
  [⟨some .leftParen, ['(']⟩, ⟨some .identifier, ['a']⟩, ⟨some .rightParen, [')']⟩,
    ⟨some .minus, ['-']⟩, ⟨some .identifier, ['b']⟩, ⟨some .star, ['*']⟩,
    ⟨some .identifier, ['c']⟩]

/-- The derivation of `(a)-b*c` as an expression. -/
def productDerivation : Derivation Start.expression.goal :=
  (expressionDerivation
    (.node .parenthesisedTerm (.cons (symbolAt .leftParen .origin)
      (.cons (expressionDerivation (nameTerm 'a' ⟨1, 1, 2⟩) [])
        (.cons (symbolAt .rightParen ⟨2, 1, 3⟩) .nil))))
    [(.node .subtractOperator (.cons (symbolAt .minus ⟨3, 1, 4⟩) .nil), nameTerm 'b' ⟨4, 1, 5⟩),
      (.node .multiplyOperator (.cons (symbolAt .star ⟨5, 1, 6⟩) .nil),
        nameTerm 'c' ⟨6, 1, 7⟩)]).asText

/-- The names in `(a)-b*c`. -/
def productName (s : String) (start : Int) : Node :=
  .identifier (some ⟨start, start + 1, 1, start + 1, none⟩) (.text s)

/-- `(a)-b*c` as it is read. -/
def productChain : Node :=
  chainExpr (some ⟨0, 7, 1, 1, none⟩) (chainExpr (some ⟨1, 2, 1, 2, none⟩) (productName "a" 1) [])
    [(.subtract, productName "b" 4), (.multiply, productName "c" 6)]

/-- The operation `b*c`. -/
def productOperation : Node :=
  .binary (some ⟨4, 7, 1, 5, none⟩) (.operation .multiply) (.node (productName "b" 4))
    (.node (productName "c" 6))

/-- The operation `(a)-b*c`, which starts behind the parenthesis. -/
def differenceOperation : Node :=
  .binary (some ⟨1, 7, 1, 2, none⟩) (.operation .subtract) (.node (productName "a" 1))
    (.node productOperation)

theorem parse_product :
    (parse .expression none ['(', 'a', ')', '-', 'b', '*', 'c']).outcome = .ok productChain := by
  have hcut : AreCut productLexemes :=
    .cons rfl (.cons rfl (.cons rfl (.cons rfl (.cons rfl (.cons rfl (.cons rfl .nil))))))
  obtain ⟨hrest, htokens⟩ := lex_textOf hcut
  exact parse_eq_ok_iff.2 ⟨hrest, productDerivation, htokens.symm, rfl, rfl⟩

theorem splitTree_product : splitTree (productName "b" 4)
    [(.multiply, productName "c" 6)] = productOperation := by
  have hsplits : Splits [] .multiply [] := ⟨by decide, by decide, by decide⟩
  exact (hsplits.splitTree_eq _ _).trans (by rw [splitTree_nil, splitTree_nil]; rfl)

theorem regroup_product : productChain.regroup splitTree = differenceOperation := by
  have hsplits : Splits [] .subtract [(.multiply, productName "c" 6)] :=
    ⟨by decide, by decide, by decide⟩
  have hchain : productChain.regroup splitTree = splitTree (splitTree (productName "a" 1) [])
      ([] ++ (.subtract, productName "b" 4) :: [(.multiply, productName "c" 6)]) := by
    rw [productChain, regroup_chainExpr, regroup_chainExpr]
    rfl
  rw [hchain, hsplits.splitTree_eq, splitTree_nil, splitTree_nil, splitTree_product]
  rfl

theorem group_product : productChain.group.outcome = .ok differenceOperation := by
  have hterm : IsTerm productChain := (grammatical_of_parse parse_product).isTerm (.inl rfl)
  exact regroup_product ▸ hterm.apply_outcome rfl .byPrecedence

/-- `b*c` reads as itself, and `a)-b*c` is not accepted. -/
theorem parse_slice_operation_product :
    Text.ResolvesTo none ['b', '*', 'c'] productOperation ∧
      ∀ m, (parse .expression none ['a', ')', '-', 'b', '*', 'c']).outcome ≠ .ok m := by
  obtain ⟨tree, htree, hall⟩ := parse_slice_operation none none _ _ parse_product
  obtain rfl := Except.ok.inj (group_product.symm.trans htree)
  have hwhole : productChain.HasOperation _ _ differenceOperation :=
    ⟨_, _, _, .refl, .whole, List.cons_ne_nil _ _,
      regroup_product.symm.trans (regroup_chainExpr_congr _ none _ _)⟩
  have hstretch : Stretch (chainExpr (some ⟨1, 2, 1, 2, none⟩) (productName "a" 1) [])
      [(Operator.subtract, productName "b" 4), (.multiply, productName "c" 6)]
      (chainExpr (some ⟨1, 2, 1, 2, none⟩) (productName "a" 1) [])
      ([] ++ (.subtract, productName "b" 4) :: [(.multiply, productName "c" 6)]) := .whole
  have hright : productChain.HasOperation _ _ productOperation :=
    ⟨_, _, _, .refl, hstretch.after, List.cons_ne_nil _ _,
      splitTree_product.symm.trans (regroup_chainExpr none (productName "b" 4)
        [(.multiply, productName "c" 6)]).symm⟩
  have hhas : differenceOperation.Has productOperation :=
    .child (List.mem_cons_of_mem _ List.mem_cons_self) .refl
  constructor
  · obtain ⟨-, s, hs, hslice⟩ := hall productOperation hhas rfl
    obtain rfl := Option.some.inj hs
    exact (hslice _ _ hright).1 ⟨rfl, rfl⟩
  · obtain ⟨-, s, hs, hslice⟩ := hall differenceOperation .refl rfl
    obtain rfl := Option.some.inj hs
    exact (hslice _ _ hwhole).2 (.inl rfl)

/-- The span of an operation need not name a text that resolves to the operation: that of `(a)-b*c`
names `a)-b*c`. -/
theorem not_resolvesTo_slice :
    ¬∀ (text : Text) (e tree b : Node) (s : Span),
      (parse .expression none text).outcome = .ok e → e.group.outcome = .ok tree →
        tree.Has b → b.type = .binary → b.span = some s → (text.slice s).ResolvesTo none b := by
  intro hall
  obtain ⟨m, -, hm, -⟩ :=
    hall _ _ _ differenceOperation _ parse_product group_product .refl rfl rfl
  have hcut : AreCut (productLexemes.drop 1) :=
    .cons rfl (.cons rfl (.cons rfl (.cons rfl (.cons rfl (.cons rfl .nil)))))
  have hdepth := depthAfter_of_parse hm
  have htokens := (lex_textOf hcut).2
  have hclosed : depthAfter 0 (place .origin (productLexemes.drop 1)) = none := rfl
  rw [← htokens] at hclosed
  exact absurd (hdepth.symm.trans hclosed) (Option.some_ne_none 0)

end Spruce
