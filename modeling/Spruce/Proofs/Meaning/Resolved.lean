import Spruce.Proofs.Meaning.Grammatical
import Spruce.Proofs.Meaning.Spans
import Spruce.Proofs.Precedence.Resolving

set_option autoImplicit false

/-!
# Spans after grouping

The tree of a chain covers the tokens from its first operand to its last (`Joins.exists_covers`), as
an operation spans both its operands. So grouping the expressions of a tree leaves its spans
well-formed, nested and in order (`spans_placed`), although an expression may come to cover fewer
tokens than before: where it began or ended with a parenthesis, its tree does not.
-/

namespace Spruce

variable {filename : Option String}

/-! ## Nodes that cover some tokens -/

/-- A node that covers some of the given tokens, at least one. -/
def Node.CoversSome (filename : Option String) (us : List Token) (n : Node) : Prop :=
  ∃ vs, vs <:+: us ∧ vs ≠ [] ∧ n.Covers filename vs

/-- Only programs and bodies cover no tokens. -/
theorem Node.Covers.coversSome {us : List Token} {n : Node} (h : n.Covers filename us)
    (type : NodeType) (hn : n.type = type) (htype : ¬(type = .program ∨ type = .body)) :
    n.CoversSome filename us := by
  refine ⟨us, List.infix_rfl, ?_, h⟩
  rintro rfl
  obtain ⟨-, hempty, -, -⟩ := h
  exact htype (hn ▸ (hempty rfl).of_nil.1)

theorem Node.CoversSome.of_within {us vs : List Token} {n : Node} (h : n.CoversSome filename us)
    (hus : us <:+: vs) : n.CoversSome filename vs := by
  obtain ⟨ws, hws, hne, hcovers⟩ := h
  exact ⟨ws, hws.trans hus, hne, hcovers⟩

/-! ## Trees of chains -/

/-- The span of tokens from the first of two stretches to the last of the other. -/
theorem join_tokensSpan {us vs : List Token} (hus : us ≠ []) (hvs : vs ≠ [])
    (between : List Token) :
    Span.join (tokensSpan filename us) (tokensSpan filename vs) =
      tokensSpan filename (us ++ (between ++ vs)) := by
  have hfirst : (us ++ (between ++ vs)).head? = us.head? := List.head?_append_of_ne_nil us hus
  have hlast : (us ++ (between ++ vs)).getLast? = vs.getLast? := by
    rw [← List.append_assoc]
    exact List.getLast?_append_of_ne_nil _ hvs
  rw [tokensSpan_eq_some filename (List.head?_eq_some_head hus) (List.getLast?_eq_some_getLast hus),
    tokensSpan_eq_some filename (List.head?_eq_some_head hvs) (List.getLast?_eq_some_getLast hvs),
    tokensSpan_eq_some filename (hfirst.trans (List.head?_eq_some_head hus))
      (hlast.trans (List.getLast?_eq_some_getLast hvs))]
  rfl

/-- An operation covers the tokens from its left operand to its right. -/
theorem covers_joined {left right : Node} {us vs : List Token} (o : Operation)
    (hus : us ≠ []) (hvs : vs ≠ []) (between : List Token) (hleft : left.Covers filename us)
    (hright : right.Covers filename vs) :
    (joined o left right).Covers filename (us ++ (between ++ vs)) := by
  have hspan : (joined o left right).span = tokensSpan filename (us ++ (between ++ vs)) := by
    obtain ⟨hleft, -⟩ := hleft
    obtain ⟨hright, -⟩ := hright
    rw [← join_tokensSpan hus hvs, ← hleft, ← hright]
    rfl
  have hempty (hnil : us ++ (between ++ vs) = []) : (joined o left right).ReadFrom filename [] :=
    absurd (List.append_eq_nil_iff.1 hnil).1 hus
  have hturn : InTurn (Node.Covers filename) (us ++ (between ++ vs)) ([left] ++ [right]) :=
    (InTurn.single hleft).append ((InTurn.single hright).prepend between)
  exact .intro hspan hempty rfl hturn

/-- The tree of a chain covers some of the tokens that its operands stand among. -/
theorem Joins.coversSome {first tree : Node} {rest : List Pair} (h : Joins first rest tree)
    {us : List Token}
    (hoperands : InTurn (Node.CoversSome filename) us (first :: rest.map Prod.snd)) :
    tree.CoversSome filename us := by
  induction h generalizing us with
  | single first =>
      obtain ⟨vs, hvs, hfirst⟩ := hoperands.exists_of_mem List.mem_cons_self
      exact hfirst.of_within hvs
  | @join first operand left right before after o _ _ ihleft ihright =>
      rw [List.map_append, List.map_cons, ← List.cons_append] at hoperands
      obtain ⟨vs, ws, rfl, hbefore, hafter⟩ := hoperands.of_append
      obtain ⟨_, ⟨a, b, rfl⟩, hne, hleft⟩ := ihleft hbefore
      obtain ⟨_, ⟨c, d, rfl⟩, hne', hright⟩ := ihright hafter
      refine ⟨_, ⟨a, d, ?_⟩, ?_, covers_joined o hne hne' (b ++ c) hleft hright⟩
      · simp only [List.append_assoc]
      · exact List.append_ne_nil_of_left_ne_nil hne _

/-! ## Trees of terms -/

theorem map_node_inj {ns ms : List Node} (h : ns.map Value.node = ms.map Value.node) : ns = ms :=
  List.map_injective_iff.2 (fun _ _ => Value.node.inj) h

theorem Node.Covers.exists_children {us : List Token} {n : Node} (h : n.Covers filename us) :
    ∃ ns : List Node, n.children = ns.map .node := by
  obtain ⟨-, -, hchildren, -⟩ := h
  exact ⟨_, hchildren⟩

/-- A node covers the same tokens when its children give way to others that stand within theirs. -/
theorem Node.Covers.replace {us : List Token} {n m : Node} {ns ms : List Node}
    (h : n.Covers filename us) (hspan : m.span = n.span) (hsame : n.children = [] → m = n)
    (hn : n.children = ns.map .node) (hm : m.children = ms.map .node)
    (hns : List.Forall₂ (fun c d => ∀ us, c.Covers filename us →
      ∃ vs, vs <:+: us ∧ d.Covers filename vs) ns ms) :
    m.Covers filename us := by
  obtain ⟨hspan', hempty, hchildren, hturn⟩ := h
  obtain rfl := map_node_inj (hn.symm.trans hchildren)
  refine .intro (hspan.trans hspan') ?_ hm (hturn.replace hns)
  intro hnil
  rw [hsame (hempty hnil).of_nil.2]
  exact hempty hnil

theorem call_children (span : Option Span) (callee : Value) (arguments : List Node) :
    (Node.call span callee (.nodes arguments)).children = arguments.map .node :=
  List.append_nil _

/-- A regrouped term covers some of the tokens of the term. -/
theorem IsTerm.coversSome_regroup {chain : Node → List Pair → Node}
    (hchain : ∀ first rest, Joins first rest (chain first rest)) {n : Node} (h : IsTerm n)
    {us : List Token} (hn : n.Covers filename us) : (n.regroup chain).CoversSome filename us := by
  induction h generalizing us with
  | @expr span terms operators hlength _ ih =>
      obtain ⟨-, -, hchildren, hturn⟩ := hn
      obtain rfl := map_node_inj
        ((Chain.node_children span ⟨terms, operators⟩).symm.trans hchildren)
      have hterms : List.Forall₂ (fun n m => ∀ us, n.Covers filename us →
          ∃ vs, vs <:+: us ∧ m.CoversSome filename vs) terms (terms.map (Node.regroup chain)) :=
        List.forall₂_map_right_iff.2 (List.forall₂_same.2 fun n hn us hcovers =>
          ⟨us, List.infix_rfl, ih n hn hcovers⟩)
      have hoperands := hturn.replace hterms
      cases terms with
      | nil => exact absurd hlength (Nat.succ_ne_zero _).symm
      | cons first others =>
          rw [regroup_expr]
          apply (hchain _ _).coversSome
          rw [List.map_snd_zip]
          · exact hoperands
          · simpa using Nat.le_of_eq (Nat.succ.inj hlength)
  | @call span callee arguments _ _ ih =>
      rw [regroup_call]
      have harguments : List.Forall₂ (fun n m => ∀ us, n.Covers filename us →
          ∃ vs, vs <:+: us ∧ m.Covers filename vs) arguments (arguments.map (Node.regroup chain)) :=
        List.forall₂_map_right_iff.2 (List.forall₂_same.2 fun n hn us hcovers => by
          obtain ⟨vs, hvs, -, hregroup⟩ := ih n hn hcovers
          exact ⟨vs, hvs, hregroup⟩)
      have hcall : (Node.call span callee (.nodes (arguments.map (Node.regroup chain)))).Covers
          filename us := by
        refine hn.replace rfl ?_ (call_children _ _ _) (call_children _ _ _) harguments
        intro hnil
        rw [call_children, List.map_eq_nil_iff] at hnil
        rw [hnil]
        rfl
      exact hcall.coversSome .call rfl (by decide)
  | identifier => exact hn.coversSome .identifier rfl (by decide)
  | number => exact hn.coversSome .number rfl (by decide)

/-! ## Whole trees -/

/-- A node of a grammatical tree still covers some of its tokens when all expressions are
grouped. -/
theorem Node.InGrammatical.exists_covers (g : Grouping) {n : Node} (h : n.InGrammatical)
    {us : List Token} (hn : n.Covers filename us) :
    ∃ vs, vs <:+: us ∧ (n.resolved g).Covers filename vs := by
  by_cases hexpr : n.isExpr = true
  · rw [resolved_of_isExpr g hexpr]
    obtain ⟨vs, hvs, -, hregroup⟩ := (h.isTerm hexpr).coversSome_regroup g.joins_chain hn
    exact ⟨vs, hvs, hregroup⟩
  · obtain ⟨ns, hchildren⟩ := hn.exists_children
    have hns : List.Forall₂ (fun c d => ∀ us, c.Covers filename us →
        ∃ vs, vs <:+: us ∧ d.Covers filename vs) ns (ns.map (Node.resolved g)) := by
      refine List.forall₂_map_right_iff.2 (List.forall₂_same.2 fun c hc us hcovers => ?_)
      have hmem : .node c ∈ n.children := hchildren ▸ List.mem_map_of_mem hc
      exact (h.holds.of_mem_children hmem).exists_covers g hcovers
    have hfitted := h.holds.isFitted
    refine ⟨us, List.infix_rfl, hn.replace ?_ ?_ hchildren
      (children_resolved g hfitted hexpr hchildren) hns⟩
    · rw [resolved_of_not_isExpr g hexpr]
    · intro hnil
      rw [resolved_of_not_isExpr g hexpr, hfitted.substituteFields_of_no_children _ hnil]
      cases n
      rfl
termination_by n.size
decreasing_by exact size_lt_of_mem_children hmem

/-- Spans are well formed, nested and in order. In the tree of an accepted text, and in that tree
with all its expressions grouped in either way, which never fails, every node with a span has one
that is not empty, lies within the text and has the line and column of its start; only a program or
body may have none, and only one that was made of no tokens; the span of a child lies within that of
its parent, and the spans of children come one after another. -/
theorem spans_placed (start : Start) (filename : Option String) (text : Text) (root : Node)
    (h : (parse start filename text).outcome = .ok root) :
    (∀ n, root.Has n → n.Placed filename text) ∧
    ∀ g, ∃ r root', (root.groupAll g).outcome = .ok r ∧ r.value = .node root' ∧
      ∀ n, root'.Has n → n.Placed filename text := by
  have hrest := (parse_eq_ok_iff.1 h).1
  obtain ⟨us, hus, hcovers⟩ := covers_of_parse h
  have hplaced : ∀ {m : Node} {vs : List Token}, vs <:+: (lex text).tokens →
      m.Covers filename vs → ∀ n, m.Has n → n.Placed filename text := by
    intro m vs hvs hm n hn
    obtain ⟨ws, hws, hn⟩ := hm.exists_of_has hn
    exact hn.placed hrest (hws.trans hvs)
  refine ⟨hplaced hus hcovers, fun g => ?_⟩
  have hgrammatical : root.InGrammatical := .inl ⟨_, grammatical_of_parse h⟩
  obtain ⟨r, hr, hvalue⟩ := hgrammatical.groupAll_outcome g
  obtain ⟨vs, hvs, hresolved⟩ := hgrammatical.exists_covers g hcovers
  exact ⟨r, root.resolved g, hr, hvalue, hplaced (hvs.trans hus) hresolved⟩

/-- The lexemes of `(a)-b`. -/
def parenthesisLexemes : List Lexeme :=
  [⟨some .leftParen, ['(']⟩, ⟨some .identifier, ['a']⟩, ⟨some .rightParen, [')']⟩,
    ⟨some .minus, ['-']⟩, ⟨some .identifier, ['b']⟩]

/-- A name as a term. -/
def nameTerm (c : Char) (p : Position) : Derivation (.sub .term) :=
  .node .referenceTerm (.cons (.node .reference (.cons (.node .identifierName
    (.cons (.token .identifier (.at .identifier [c] p) rfl) .nil)) .nil)) .nil)

/-- The derivation of `(a)-b` as an expression. -/
def parenthesisDerivation : Derivation Start.expression.goal :=
  .node .loneExpression (.cons (.node .noNewline .nil) (.cons
    (.node .expression (.cons (.node .chain (.cons
      (.node .parenthesisedTerm (.cons (.token .leftParen (.at .leftParen ['('] .origin) rfl)
        (.cons (.node .expression (.cons (.node .chain (.cons (nameTerm 'a' ⟨1, 1, 2⟩)
          (.cons (.node .lastTerm .nil) .nil))) .nil))
        (.cons (.token .rightParen (.at .rightParen [')'] ⟨2, 1, 3⟩) rfl) .nil))))
      (.cons (.node .nextTerms (.cons
        (.node .subtractOperator (.cons (.token .minus (.at .minus ['-'] ⟨3, 1, 4⟩) rfl) .nil))
        (.cons (.node .chain (.cons (nameTerm 'b' ⟨4, 1, 5⟩)
          (.cons (.node .lastTerm .nil) .nil))) .nil))) .nil))) .nil))
    (.cons (.node .noNewline .nil) .nil)))

/-- `(a)-b` as a single operation, which starts at its left operand and not at the parenthesis. -/
def parenthesisOperation : Node :=
  .binary (some ⟨1, 5, 1, 2, none⟩) (.operation .subtract)
    (.node (.identifier (some ⟨1, 2, 1, 2, none⟩) (.text "a")))
    (.node (.identifier (some ⟨4, 5, 1, 5, none⟩) (.text "b")))

theorem spans_placed_parenthesis :
    (parenthesisDerivation.understand none).meaning.span = some ⟨0, 5, 1, 1, none⟩ ∧
      Node.Placed none ['(', 'a', ')', '-', 'b'] (parenthesisDerivation.understand none).meaning ∧
      Node.Placed none ['(', 'a', ')', '-', 'b'] parenthesisOperation := by
  have hcut : AreCut parenthesisLexemes :=
    .cons rfl (.cons rfl (.cons rfl (.cons rfl (.cons rfl .nil))))
  obtain ⟨hrest, htokens⟩ := lex_textOf hcut
  have haccepted : (parse .expression none (textOf parenthesisLexemes)).outcome =
      .ok (parenthesisDerivation.understand none).meaning :=
    parse_eq_ok_iff.2 ⟨hrest, parenthesisDerivation, htokens.symm, rfl, rfl⟩
  obtain ⟨hplaced, hgrouped⟩ := spans_placed .expression none _ _ haccepted
  obtain ⟨r, root', hr, hvalue, hplaced'⟩ := hgrouped .leftToRight
  have hgroup : (Node.groupAll .leftToRight
      (parenthesisDerivation.understand none).meaning).outcome =
        .ok ⟨.node parenthesisOperation, .built⟩ := rfl
  obtain rfl := Except.ok.inj (hgroup.symm.trans hr)
  obtain rfl := Value.node.inj hvalue
  exact ⟨rfl, hplaced _ .refl, hplaced' _ .refl⟩

end Spruce
