import Mathlib.Data.List.Basic
import Spruce.Proofs.Precedence.Joining
import Spruce.Proofs.Tree.Descendants

set_option autoImplicit false

/-!
# Stretches of chains

An operation in the tree of a chain is the tree of a stretch of it: some neighbouring operands with
the operations between them. So an operation in the tree of an expression is what a stretch of the
terms of some expression in it is regrouped to (`IsTerm.exists_stretch`). It spans its operands from
the first to the last (`Joins.span_eq`).

Main definitions: `Stretch`, `lastOperand` and `chainExpr`.
-/

namespace Spruce

section

variable {α β γ δ : Type}

/-- Some neighbouring operands of a chain with what stands between them: the chain itself, or what
is left of a stretch on either side of something between two operands. -/
inductive Stretch (first : β) (rest : List (α × β)) : (first' : β) → (rest' : List (α × β)) → Prop
  where
  | whole : Stretch first rest first rest
  | before {first' operand : β} {o : α} {before after : List (α × β)}
      (h : Stretch first rest first' (before ++ (o, operand) :: after)) :
      Stretch first rest first' before
  | after {first' operand : β} {o : α} {before after : List (α × β)}
      (h : Stretch first rest first' (before ++ (o, operand) :: after)) :
      Stretch first rest operand after

theorem Stretch.trans {first first' first'' : β} {rest rest' rest'' : List (α × β)}
    (h : Stretch first rest first' rest') (h' : Stretch first' rest' first'' rest'') :
    Stretch first rest first'' rest'' := by
  induction h' with
  | whole => exact h
  | before _ ih => exact .before ih
  | after _ ih => exact .after ih

/-- A stretch of a chain that was mapped is one of the chain, mapped. -/
theorem Stretch.exists_of_map {f : β → δ} {g : α → γ} {first : β} {rest : List (α × β)}
    {first' : δ} {rest' : List (γ × δ)}
    (h : Stretch (f first) (rest.map (Prod.map g f)) first' rest') :
    ∃ first'' rest'', Stretch first rest first'' rest'' ∧ first' = f first'' ∧
      rest' = rest''.map (Prod.map g f) := by
  induction h with
  | whole => exact ⟨first, rest, .whole, rfl, rfl⟩
  | before _ ih =>
      obtain ⟨first'', rest'', hstretch, rfl, hmap⟩ := ih
      obtain ⟨before, later, rfl, rfl, hlater⟩ := List.map_eq_append_iff.1 hmap.symm
      obtain ⟨_, after, rfl, -, -⟩ := List.map_eq_cons_iff.1 hlater
      exact ⟨first'', before, hstretch.before, rfl, rfl⟩
  | after _ ih =>
      obtain ⟨first'', rest'', hstretch, -, hmap⟩ := ih
      obtain ⟨before, later, rfl, -, hlater⟩ := List.map_eq_append_iff.1 hmap.symm
      obtain ⟨⟨o, operand⟩, after, rfl, hpair, rfl⟩ := List.map_eq_cons_iff.1 hlater
      exact ⟨operand, after, hstretch.after, (congrArg Prod.snd hpair).symm, rfl⟩

/-- The last operand of a chain. -/
def lastOperand (first : β) (rest : List (α × β)) : β := (rest.getLast?.map Prod.snd).getD first

theorem lastOperand_append_cons (first operand : β) (o : α) (before after : List (α × β)) :
    lastOperand first (before ++ (o, operand) :: after) = lastOperand operand after := by
  rw [lastOperand, lastOperand, List.getLast?_append, List.getLast?_cons]
  cases after.getLast? <;> rfl

theorem lastOperand_map (f : β → δ) (g : α → γ) (first : β) (rest : List (α × β)) :
    lastOperand (f first) (rest.map (Prod.map g f)) = f (lastOperand first rest) := by
  rw [lastOperand, lastOperand, List.getLast?_map]
  cases rest.getLast? <;> rfl

theorem lastOperand_mem (first : β) (rest : List (α × β)) :
    lastOperand first rest ∈ first :: rest.map Prod.snd := by
  rw [lastOperand, ← List.getLast?_map]
  cases hlast : (rest.map Prod.snd).getLast? with
  | none => exact List.mem_cons_self
  | some operand => exact List.mem_cons_of_mem _ (List.mem_of_getLast? hlast)

end

/-! ## Spans -/

/-- The tree of a chain spans its operands from the first to the last. -/
theorem Joins.span_eq {first tree : Node} {rest : List Pair} (h : Joins first rest tree)
    (hspans : ∀ n ∈ first :: rest.map Prod.snd, ∃ s, Node.span n = some s) :
    tree.span = Span.join first.span (lastOperand first rest).span := by
  induction h with
  | single first =>
      obtain ⟨s, hs⟩ := hspans first List.mem_cons_self
      show first.span = Span.join first.span first.span
      rw [hs]
      rfl
  | @join first operand left right before after o _ _ ihleft ihright =>
      rw [List.map_append, List.map_cons, ← List.cons_append] at hspans
      obtain ⟨hbefore, hafter⟩ := List.forall_mem_append.1 hspans
      obtain ⟨s₁, h₁⟩ := hbefore _ List.mem_cons_self
      obtain ⟨s₂, h₂⟩ := hbefore _ (lastOperand_mem first before)
      obtain ⟨s₃, h₃⟩ := hafter _ List.mem_cons_self
      obtain ⟨s₄, h₄⟩ := hafter _ (lastOperand_mem operand after)
      rw [lastOperand_append_cons, joined, Node.binary, ihleft hbefore, ihright hafter]
      dsimp only
      rw [h₁, h₂, h₃, h₄]
      rfl

/-! ## Operations in the tree of a chain -/

theorem children_joined (o : Operation) (left right : Node) :
    (joined o left right).children = [left, right].map .node := rfl

/-- An operation in the tree of a chain is the tree of a stretch of it, or it is one in an
operand. -/
theorem exists_stretch_of_has {f : Node → Node} {α : Type} {g : α → Operation} {b first : Node}
    {rest : List (α × Node)} (htype : b.type = .binary)
    (h : (splitTree (f first) (rest.map (Prod.map g f))).Has b) :
    (∃ first' rest', Stretch first rest first' rest' ∧ rest' ≠ [] ∧
      b = splitTree (f first') (rest'.map (Prod.map g f))) ∨
      ∃ operand ∈ first :: rest.map Prod.snd, (f operand).Has b := by
  by_cases hne : rest = []
  · subst hne
    rw [List.map_nil, splitTree_nil] at h
    exact .inr ⟨first, List.mem_cons_self, h⟩
  · obtain ⟨before, o, operand, after, hmap, hsplits⟩ :=
      exists_splits (List.map_eq_nil_iff.not.2 hne : rest.map (Prod.map g f) ≠ [])
    obtain ⟨before, later, hrest, rfl, hlater⟩ := List.map_eq_append_iff.1 hmap
    obtain ⟨⟨o', operand⟩, after, rfl, hpair, rfl⟩ := List.map_eq_cons_iff.1 hlater
    obtain ⟨rfl, rfl⟩ := Prod.mk.inj hpair
    have hwhole : Stretch first rest first (before ++ (o', operand) :: after) := hrest ▸ .whole
    have hoperands : first :: rest.map Prod.snd =
        (first :: before.map Prod.snd) ++ (operand :: after.map Prod.snd) := by simp [hrest]
    have htree := hsplits.splitTree_eq (f first) (f operand)
    rw [← hmap] at htree
    rw [htree] at h
    rw [hoperands]
    rcases (Node.has_iff (children_joined _ _ _)).1 h with rfl | ⟨c, hc, h⟩
    · exact .inl ⟨first, rest, .whole, hne, htree.symm⟩
    · rcases List.mem_pair.1 hc with rfl | rfl
      · rcases exists_stretch_of_has htype h with ⟨first', rest', hstretch, h⟩ | ⟨n, hn, h⟩
        · exact .inl ⟨first', rest', hwhole.before.trans hstretch, h⟩
        · exact .inr ⟨n, List.mem_append_left _ hn, h⟩
      · rcases exists_stretch_of_has htype h with ⟨first', rest', hstretch, h⟩ | ⟨n, hn, h⟩
        · exact .inl ⟨first', rest', hwhole.after.trans hstretch, h⟩
        · exact .inr ⟨n, List.mem_append_right _ hn, h⟩
termination_by rest.length
decreasing_by
  all_goals
    rw [hrest, List.length_append, List.length_cons]
    omega

/-! ## Operations in the tree of an expression -/

/-- The expression of a first term and of others, each with the operator before it. -/
def chainExpr (span : Option Span) (first : Node) (rest : List (Operator × Node)) : Node :=
  .expr span (.nodes (first :: rest.map Prod.snd)) (.operators (rest.map Prod.fst))

/-- One more term than operators are a first term and others, each with an operator before it. -/
theorem exists_chain_of_length {terms : List Node} {operators : List Operator}
    (h : terms.length = operators.length + 1) :
    ∃ (first : Node) (rest : List (Operator × Node)),
      terms = first :: rest.map Prod.snd ∧ operators = rest.map Prod.fst := by
  cases terms with
  | nil => exact absurd h (Nat.succ_ne_zero _).symm
  | cons first others =>
      have hlength : others.length = operators.length := Nat.succ.inj h
      refine ⟨first, operators.zip others, ?_, ?_⟩
      · rw [List.map_snd_zip (Nat.le_of_eq hlength)]
      · rw [List.map_fst_zip (Nat.le_of_eq hlength.symm)]

theorem chainExpr_inj {span span' : Option Span} {first first' : Node}
    {rest rest' : List (Operator × Node)}
    (h : chainExpr span first rest = chainExpr span' first' rest') :
    first = first' ∧ rest = rest' := by
  have hfields := congrArg Node.fields h
  have hterms := congrArg Value.elements (List.cons.inj hfields).1
  have hoperators := congrArg Value.elements (List.cons.inj (List.cons.inj hfields).2).1
  obtain ⟨hfirst, hsnd⟩ := List.cons.inj
    (List.map_injective_iff.2 (fun _ _ => Value.node.inj) hterms)
  have hfst := List.map_injective_iff.2 (fun _ _ => Value.operator.inj) hoperators
  have hpairs : ∀ ps : List (Operator × Node), (ps.map Prod.fst).zip (ps.map Prod.snd) = ps :=
    fun ps => List.zip_map'.trans (List.map_id ps)
  exact ⟨hfirst, by rw [← hpairs rest, hfst, hsnd, hpairs]⟩

theorem regroup_chainExpr {chain : Node → List Pair → Node} (span : Option Span) (first : Node)
    (rest : List (Operator × Node)) :
    (chainExpr span first rest).regroup chain = chain (first.regroup chain)
      (rest.map (Prod.map Operator.operation (Node.regroup chain))) := by
  rw [chainExpr, regroup_expr, List.map_map, List.map_map, List.zip_map']
  rfl

/-- What an expression is regrouped to does not depend on its span. -/
theorem regroup_chainExpr_congr {chain : Node → List Pair → Node} (span span' : Option Span)
    (first : Node) (rest : List (Operator × Node)) :
    (chainExpr span first rest).regroup chain = (chainExpr span' first rest).regroup chain := by
  rw [regroup_chainExpr, regroup_chainExpr]

theorem children_chainExpr (span : Option Span) (first : Node) (rest : List (Operator × Node)) :
    (chainExpr span first rest).children = (first :: rest.map Prod.snd).map .node :=
  List.append_nil _

theorem isTerm_chainExpr {span : Option Span} {first : Node} {rest : List (Operator × Node)}
    (h : ∀ n ∈ first :: rest.map Prod.snd, IsTerm n) : IsTerm (chainExpr span first rest) :=
  .expr (by simp) h

/-- An induction over terms that meets an expression as a first term and others. -/
theorem IsTerm.chainInduction {motive : (n : Node) → IsTerm n → Prop}
    (chain : ∀ (span : Option Span) (first : Node) (rest : List (Operator × Node))
      (hterms : ∀ n ∈ first :: rest.map Prod.snd, IsTerm n)
      (_ : ∀ (n : Node) (hn : n ∈ first :: rest.map Prod.snd), motive n (hterms n hn)),
        motive (chainExpr span first rest) (isTerm_chainExpr hterms))
    (call : ∀ (span : Option Span) (callee : Value) (arguments : List Node)
      (hexprs : ∀ n ∈ arguments, n.isExpr = true) (harguments : ∀ n ∈ arguments, IsTerm n)
      (_ : ∀ (n : Node) (hn : n ∈ arguments), motive n (harguments n hn)),
        motive (.call span callee (.nodes arguments)) (.call hexprs harguments))
    (identifier : ∀ span name, motive (.identifier span name) .identifier)
    (number : ∀ span sign integer fraction exponent,
      motive (.number span sign integer fraction exponent) .number)
    (n : Node) (h : IsTerm n) : motive n h := by
  induction h with
  | @expr span terms operators hlength hterms ih =>
      obtain ⟨first, rest, rfl, rfl⟩ := exists_chain_of_length hlength
      exact chain span first rest hterms ih
  | call hexprs harguments ih => exact call _ _ _ hexprs harguments ih
  | identifier => exact identifier _ _
  | number => exact number _ _ _ _ _

/-- An operation in the tree of a term is what a stretch of the terms of some expression in it is
regrouped to. -/
theorem IsTerm.exists_stretch {n b : Node} (h : IsTerm n) (htype : b.type = .binary)
    (hb : (n.regroup splitTree).Has b) :
    ∃ span first rest first' rest', n.Has (chainExpr span first rest) ∧
      Stretch first rest first' rest' ∧ rest' ≠ [] ∧
        b = (chainExpr none first' rest').regroup splitTree := by
  induction n, h using IsTerm.chainInduction with
  | chain span first rest _ ih =>
      rw [regroup_chainExpr] at hb
      rcases exists_stretch_of_has htype hb with ⟨first', rest', hstretch, hne, heq⟩ | ⟨m, hm, hb⟩
      · exact ⟨span, first, rest, first', rest', .refl, hstretch, hne,
          heq.trans (regroup_chainExpr none first' rest').symm⟩
      · obtain ⟨span', first', rest', first'', rest'', hhas, h⟩ := ih m hm hb
        have hbelow := (Node.has_iff (children_chainExpr span first rest)).2 (.inr ⟨m, hm, hhas⟩)
        exact ⟨span', first', rest', first'', rest'', hbelow, h⟩
  | call span callee arguments _ _ ih =>
      have hchildren : ∀ ns : List Node, (Node.call span callee (.nodes ns)).children =
          ns.map .node := fun ns => List.append_nil _
      rw [regroup_call] at hb
      rcases (Node.has_iff (hchildren _)).1 hb with rfl | ⟨_, hm, hb⟩
      · exact NodeType.noConfusion htype
      · obtain ⟨m, hmem, rfl⟩ := List.mem_map.1 hm
        obtain ⟨span', first', rest', first'', rest'', hhas, h⟩ := ih m hmem hb
        have hbelow := (Node.has_iff (hchildren arguments)).2 (.inr ⟨m, hmem, hhas⟩)
        exact ⟨span', first', rest', first'', rest'', hbelow, h⟩
  | identifier | number =>
      obtain rfl := Node.eq_of_has rfl hb
      exact NodeType.noConfusion htype

end Spruce
