import Spruce.Proofs.Precedence.Stretches
import Spruce.Proofs.Tree.Equality

set_option autoImplicit false

/-!
# Equal terms are regrouped to equal trees

Where a chain falls apart depends on its operations only, so that chains with the same operations
between equal operands have equal trees, whether they are split (`equal_splitTree`) or taken from
left to right (`equal_leftTree`). So regrouping keeps equality, as long as the trees of chains do
(`IsTerm.equal_regroup`).

Main definition: `PairEqual`.
-/

namespace Spruce

/-! ## Trees of equal chains -/

/-- The same operation before equal operands. -/
def PairEqual (p q : Pair) : Prop := p.1 = q.1 ∧ p.2.equal q.2 = true

theorem map_fst_eq_of_pairEqual {rest rest' : List Pair} (h : List.Forall₂ PairEqual rest rest') :
    rest.map Prod.fst = rest'.map Prod.fst := by
  induction h with
  | nil => rfl
  | cons h _ ih => rw [List.map_cons, List.map_cons, h.1, ih]

theorem forall_of_map_fst_eq {ps qs : List Pair} (heq : ps.map Prod.fst = qs.map Prod.fst)
    (P : Operation → Prop) (h : ∀ p ∈ ps, P p.1) : ∀ q ∈ qs, P q.1 := by
  rw [← List.forall_mem_map] at h ⊢
  exact heq ▸ h

/-- Where a chain falls apart depends on its operations only. -/
theorem Splits.congr {before before' after after' : List Pair} {o : Operation}
    (h : Splits before o after) (hbefore : before.map Prod.fst = before'.map Prod.fst)
    (hafter : after.map Prod.fst = after'.map Prod.fst) : Splits before' o after' := by
  have hall : (before ++ after).map Prod.fst = (before' ++ after').map Prod.fst := by
    rw [List.map_append, List.map_append, hbefore, hafter]
  exact ⟨forall_of_map_fst_eq hall (o.level ≤ ·.level) h.lowest,
    fun hpower => forall_of_map_fst_eq hbefore (·.level ≠ o.level) (h.first_of_power hpower),
    fun hpower => forall_of_map_fst_eq hafter (·.level ≠ o.level) (h.last_of_others hpower)⟩

theorem equal_joined_iff {o o' : Operation} {left left' right right' : Node} :
    (joined o left right).equal (joined o' left' right') = true ↔
      o = o' ∧ left.equal left' = true ∧ right.equal right' = true := by
  simp [joined, Node.binary, Node.equal, equalAll, Value.equal]

/-- Splitting equal chains gives equal trees. -/
theorem equal_splitTree {first first' : Node} {rest rest' : List Pair}
    (hfirst : first.equal first' = true) (hrest : List.Forall₂ PairEqual rest rest') :
    (splitTree first rest).equal (splitTree first' rest') = true := by
  induction first', rest' using splitInduction generalizing first rest with
  | single first' =>
      cases hrest
      rwa [splitTree_nil, splitTree_nil]
  | split first' operand' before' after' o hsplits ihleft ihright =>
      have hbefore := List.forall₂_take_append _ _ _ hrest
      obtain ⟨⟨o', operand⟩, after, ⟨ho, hoperand⟩, hafter, hdrop⟩ :=
        List.forall₂_cons_right_iff.1 (List.forall₂_drop_append _ _ _ hrest)
      obtain rfl : o' = o := ho
      have hsplits' := hsplits.congr (map_fst_eq_of_pairEqual hbefore).symm
        (map_fst_eq_of_pairEqual hafter).symm
      rw [← List.take_append_drop before'.length rest, hdrop, hsplits'.splitTree_eq,
        hsplits.splitTree_eq]
      exact equal_joined_iff.2 ⟨rfl, ihleft hfirst hbefore, ihright hoperand hafter⟩

/-- Equal chains have equal trees from left to right. -/
theorem equal_leftTree {first first' : Node} {rest rest' : List Pair}
    (hfirst : first.equal first' = true) (hrest : List.Forall₂ PairEqual rest rest') :
    (leftTree first rest).equal (leftTree first' rest') = true := by
  induction hrest generalizing first first' with
  | nil => exact hfirst
  | cons h _ ih => exact ih (equal_joined_iff.2 ⟨h.1, hfirst, h.2⟩)

/-! ## Regrouped terms -/

/-- Members that are related to second ones, each with the first one before it. -/
theorem exists_pairs_of_forall₂ {rest : List (Operator × Node)} {others : List Node}
    (h : List.Forall₂ (fun n m => Node.equal n m = true) (rest.map Prod.snd) others) :
    ∃ rest' : List (Operator × Node), rest.map Prod.fst = rest'.map Prod.fst ∧
      others = rest'.map Prod.snd ∧
        List.Forall₂ (fun p q => p.1 = q.1 ∧ Node.equal p.2 q.2 = true) rest rest' := by
  induction rest generalizing others with
  | nil =>
      cases h
      exact ⟨[], rfl, rfl, .nil⟩
  | cons p rest ih =>
      obtain ⟨m, later, hm, hlater, rfl⟩ := List.forall₂_cons_left_iff.1 h
      obtain ⟨rest', hfst, rfl, hrest⟩ := ih hlater
      exact ⟨(p.1, m) :: rest', congrArg (p.1 :: ·) hfst, rfl, .cons ⟨rfl, hm⟩ hrest⟩

/-- What equals an expression has the same operators between equal terms. -/
theorem exists_chain_of_equal {span : Option Span} {first m : Node} {rest : List (Operator × Node)}
    (h : (chainExpr span first rest).equal m = true) :
    ∃ span' first' rest', m = chainExpr span' first' rest' ∧ first.equal first' = true ∧
      List.Forall₂ (fun p q => p.1 = q.1 ∧ Node.equal p.2 q.2 = true) rest rest' := by
  obtain ⟨span', fields, rfl, hfields⟩ := Node.exists_of_equal h
  obtain ⟨terms, later, hterms, hlater, rfl⟩ := List.forall₂_cons_left_iff.1 hfields
  obtain ⟨operators, last, hoperators, hlast, rfl⟩ := List.forall₂_cons_left_iff.1 hlater
  cases hlast
  obtain ⟨ns, rfl, hns⟩ := Value.exists_nodes_of_equal hterms
  obtain rfl := Value.isExact_operators _ _ hoperators
  obtain ⟨first', others, hfirst, hothers, rfl⟩ := List.forall₂_cons_left_iff.1 hns
  obtain ⟨rest', hfst, rfl, hrest⟩ := exists_pairs_of_forall₂ hothers
  exact ⟨span', first', rest', by rw [hfst]; rfl, hfirst, hrest⟩

/-- What equals a call is a call of the same name with equal arguments. -/
theorem exists_call_of_equal {span : Option Span} {callee : Value} {arguments : List Node}
    {m : Node} (h : (Node.call span callee (.nodes arguments)).equal m = true) :
    ∃ span' callee' arguments', m = .call span' callee' (.nodes arguments') ∧
      callee.equal callee' = true ∧
        List.Forall₂ (fun n m => Node.equal n m = true) arguments arguments' := by
  obtain ⟨span', fields, rfl, hfields⟩ := Node.exists_of_equal h
  obtain ⟨callee', later, hcallee, hlater, rfl⟩ := List.forall₂_cons_left_iff.1 hfields
  obtain ⟨sequence, last, hsequence, hlast, rfl⟩ := List.forall₂_cons_left_iff.1 hlater
  cases hlast
  obtain ⟨ns, rfl, hns⟩ := Value.exists_nodes_of_equal hsequence
  exact ⟨span', callee', ns, rfl, hcallee, hns⟩

/-- Equal terms are regrouped to equal trees, as long as equal chains have equal trees. -/
theorem IsTerm.equal_regroup {chain : Node → List Pair → Node}
    (hchain : ∀ {first first' : Node} {rest rest' : List Pair}, first.equal first' = true →
      List.Forall₂ PairEqual rest rest' → (chain first rest).equal (chain first' rest') = true)
    {n m : Node} (h : IsTerm n) (hequal : n.equal m = true) :
    (n.regroup chain).equal (m.regroup chain) = true := by
  induction n, h using IsTerm.chainInduction generalizing m with
  | chain span first rest _ ih =>
      obtain ⟨span', first', rest', rfl, hfirst, hrest⟩ := exists_chain_of_equal hequal
      rw [regroup_chainExpr, regroup_chainExpr]
      refine hchain (ih first List.mem_cons_self hfirst) ?_
      rw [List.forall₂_map_left_iff, List.forall₂_map_right_iff]
      have hterms : ∀ p ∈ rest, ∀ {m : Node}, p.2.equal m = true →
          (p.2.regroup chain).equal (m.regroup chain) = true := fun p hp =>
        ih p.2 (List.mem_cons_of_mem first (List.mem_map_of_mem hp))
      refine ((List.forall₂_and_left rest rest').2 ⟨hterms, hrest⟩).imp ?_
      rintro p q ⟨hterm, hoperator, hequal⟩
      exact ⟨congrArg Operator.operation hoperator, hterm hequal⟩
  | call span callee arguments _ _ ih =>
      obtain ⟨span', callee', arguments', rfl, hcallee, harguments⟩ := exists_call_of_equal hequal
      rw [regroup_call, regroup_call]
      refine Node.equal_of_fields (equalAll_cons hcallee
        (equalAll_cons (Value.equal_nodes_iff.2 ?_) rfl))
      rw [List.forall₂_map_left_iff, List.forall₂_map_right_iff]
      refine ((List.forall₂_and_left arguments arguments').2 ⟨ih, harguments⟩).imp ?_
      rintro n m ⟨hterm, hequal⟩
      exact hterm hequal
  | identifier | number =>
      obtain ⟨span', fields, rfl, -⟩ := Node.exists_of_equal hequal
      exact hequal

end Spruce
