import Mathlib.Data.List.Chain
import Spruce.Proofs.Precedence.Congruence

set_option autoImplicit false

/-!
# Where precedence makes no difference

Grouping by precedence and grouping from left to right give equal trees just when, in every chain
of an expression, of two neighbouring operations the left one is put together first
(`group_equal_groupLeft_iff`).

If so, each chain falls apart at its last operation, and then both trees are the same. Conversely
trees are compared from the last operation down. The right side of the tree from the left is a
single operand there, whatever tree that is, so that by its size the other tree has nothing but
this operand on its right side either (`allBindFirst_of_equal`).

Main definitions: `Operation.BindsFirst` and `Node.BindsLeft`, and `IsTextTerm` for terms with texts
for names.
-/

namespace Spruce

/-! ## Neighbouring operations -/

/-- Of two neighbouring operations the left one is put together first: it binds at least as tightly,
and they are not both powers. -/
def Operation.BindsFirst (o o' : Operation) : Prop :=
  o'.level ≤ o.level ∧ ¬(o = .power ∧ o' = .power)

instance : DecidableRel Operation.BindsFirst := fun o o' =>
  inferInstanceAs (Decidable (o'.level ≤ o.level ∧ ¬(o = .power ∧ o' = .power)))

theorem Operation.eq_power_of_level {o : Operation} (h : o.level = power.level) : o = power := by
  cases o <;> revert h <;> decide

/-- What goes before an operation goes before all that this one goes before, as nothing but a power
can stand between two powers. -/
instance : Trans Operation.BindsFirst Operation.BindsFirst Operation.BindsFirst where
  trans {a b c} hab hbc := by
    refine ⟨Nat.le_trans hbc.1 hab.1, ?_⟩
    rintro ⟨rfl, rfl⟩
    have hb : b = .power :=
      Operation.eq_power_of_level (Nat.le_antisymm b.level_le_power hbc.1)
    exact hab.2 ⟨rfl, hb⟩

/-- A chain falls apart at its last operation if all others are put together before it. -/
theorem splits_last_iff {before : List Pair} {o : Operation} :
    Splits before o [] ↔ ∀ p ∈ before, p.1.BindsFirst o := by
  constructor
  · intro h p hp
    refine ⟨h.lowest p (List.mem_append_left _ hp), ?_⟩
    rintro ⟨hpower, rfl⟩
    exact h.first_of_power rfl p hp (congrArg Operation.level hpower)
  · intro h
    refine ⟨?_, ?_, fun _ p hp => absurd hp List.not_mem_nil⟩
    · rw [List.append_nil]
      exact fun p hp => (h p hp).1
    · intro hpower p hp hlevel
      exact (h p hp).2 ⟨Operation.eq_power_of_level (hlevel.trans hpower),
        Operation.eq_power_of_level hpower⟩

/-- Operations of which each is put together before all that follow it. -/
abbrev AllBindFirst (rest : List Pair) : Prop := rest.Pairwise fun p q => p.1.BindsFirst q.1

theorem allBindFirst_append_singleton {rest : List Pair} {p : Pair} :
    AllBindFirst (rest ++ [p]) ↔ AllBindFirst rest ∧ Splits rest p.1 [] := by
  rw [AllBindFirst, List.pairwise_append, splits_last_iff]
  simp

/-- If each operation is put together before all that follow it, splitting puts them together from
left to right. -/
theorem splitTree_eq_leftTree {first : Node} {rest : List Pair} (h : AllBindFirst rest) :
    splitTree first rest = leftTree first rest := by
  induction rest using List.reverseRecOn with
  | nil => exact splitTree_nil first
  | append_singleton rest p ih =>
      obtain ⟨hrest, hlast⟩ := allBindFirst_append_singleton.1 h
      rw [hlast.splitTree_eq, splitTree_nil, ih hrest, leftTree, leftTree, List.foldl_append]
      rfl

/-! ## Sizes -/

theorem size_joined (o : Operation) (left right : Node) :
    (joined o left right).size = left.size + right.size + 1 := by
  simp only [joined, Node.binary, Node.size, sizeAll, Value.size]
  omega

/-- The number of nodes in the operands of some operations, and one for each of the operations. -/
def sizeRest : List Pair → Nat
  | [] => 0
  | p :: rest => p.2.size + 1 + sizeRest rest

theorem sizeRest_append (rest later : List Pair) :
    sizeRest (rest ++ later) = sizeRest rest + sizeRest later := by
  induction rest with
  | nil => exact (Nat.zero_add _).symm
  | cons p rest ih =>
      rw [List.cons_append, sizeRest, sizeRest, ih]
      exact (Nat.add_assoc _ _ _).symm

theorem sizeRest_cons (o : Operation) (operand : Node) (rest : List Pair) :
    sizeRest ((o, operand) :: rest) = operand.size + 1 + sizeRest rest := rfl

theorem sizeRest_map_congr {α : Type} {o : α → Operation} {f g : Node → Node}
    {rest : List (α × Node)} (h : ∀ p ∈ rest, (f p.2).size = (g p.2).size) :
    sizeRest (rest.map (Prod.map o f)) = sizeRest (rest.map (Prod.map o g)) := by
  induction rest with
  | nil => rfl
  | cons p rest ih =>
      obtain ⟨hfirst, hlater⟩ := List.forall_mem_cons.1 h
      rw [List.map_cons, List.map_cons, sizeRest, sizeRest, ih hlater]
      exact congrArg (· + 1 + _) hfirst

/-- However the operands of a chain are joined, the tree has the same number of nodes. -/
theorem Joins.size_eq {first tree : Node} {rest : List Pair} (h : Joins first rest tree) :
    tree.size = first.size + sizeRest rest := by
  induction h with
  | single first => rfl
  | join o _ _ ihleft ihright =>
      rw [size_joined, ihleft, ihright, sizeRest_append, sizeRest_cons]
      omega

/-! ## Equal trees of a chain -/

section

variable {α : Type} {o : α → Operation} {f g : Node → Node} {first : Node}

/-- If splitting a chain and taking it from left to right give equal trees, each operation is put
together before all that follow it, and the operands are equal. -/
theorem allBindFirst_of_equal {rest : List (α × Node)}
    (hsize : ∀ p ∈ rest, (f p.2).size = (g p.2).size)
    (h : (splitTree (f first) (rest.map (Prod.map o f))).equal
      (leftTree (g first) (rest.map (Prod.map o g))) = true) :
    AllBindFirst (rest.map (Prod.map o f)) ∧ (f first).equal (g first) = true ∧
      ∀ p ∈ rest, (f p.2).equal (g p.2) = true := by
  induction rest using List.reverseRecOn with
  | nil =>
      rw [List.map_nil, splitTree_nil] at h
      exact ⟨.nil, h, fun p hp => absurd hp List.not_mem_nil⟩
  | append_singleton rest p ih =>
      obtain ⟨a, operand⟩ := p
      obtain ⟨hsizes, hlast⟩ := List.forall_mem_append.1 hsize
      have hlast : (f operand).size = (g operand).size := hlast _ List.mem_cons_self
      have hmap : (rest ++ [(a, operand)]).map (Prod.map o f) =
          rest.map (Prod.map o f) ++ [(o a, f operand)] := List.map_append
      obtain ⟨before, o', operand', after, hsplit, hsplits⟩ :=
        exists_splits (List.concat_ne_nil (o a, f operand) (rest.map (Prod.map o f)))
      rw [hmap, hsplit, hsplits.splitTree_eq, List.map_append, leftTree, List.foldl_append] at h
      obtain ⟨ho, hbefore, hafter⟩ := equal_joined_iff.1 h
      have hsides := Node.size_eq_of_equal _ _ hafter
      rw [(joins_splitTree operand' after).size_eq] at hsides
      rw [hmap]
      rcases List.eq_nil_or_concat' after with rfl | ⟨after, q, rfl⟩
      · obtain ⟨rfl, hpair⟩ := List.append_singleton_inj.1 hsplit
        obtain ⟨rfl, rfl⟩ := Prod.mk.inj hpair
        rw [splitTree_nil] at hafter
        obtain ⟨hrest, hfirst, hoperands⟩ := ih hsizes hbefore
        exact ⟨allBindFirst_append_singleton.2 ⟨hrest, hsplits⟩, hfirst,
          List.forall_mem_append.2 ⟨hoperands, List.forall_mem_singleton.2 hafter⟩⟩
      -- with another operand before the last one its right side is too large
      · rw [← List.cons_append, ← List.append_assoc] at hsplit
        obtain ⟨-, rfl⟩ := List.append_singleton_inj.1 hsplit
        rw [sizeRest_append, sizeRest_cons, sizeRest] at hsides
        change _ = (g operand).size at hsides
        omega

end

/-! ## Expressions whose chains are put together from left to right -/

/-- In every expression in the tree, of two neighbouring operations the left one is put together
first. -/
def Node.BindsLeft (n : Node) : Prop :=
  ∀ (span : Option Span) (terms : Value) (operators : List Operator),
    n.Has (.expr span terms (.operators operators)) →
      (operators.map Operator.operation).IsChain Operation.BindsFirst

theorem operators_injective {os os' : List Operator}
    (h : Value.operators os = .operators os') : os = os' := by
  have hitems : os.map Value.operator = os'.map Value.operator := congrArg Value.elements h
  exact List.map_injective_iff.2 (fun _ _ => Value.operator.inj) hitems

theorem bindsLeft_expr_iff {span : Option Span} {terms : List Node} {operators : List Operator} :
    (Node.expr span (.nodes terms) (.operators operators)).BindsLeft ↔
      (operators.map Operator.operation).IsChain Operation.BindsFirst ∧
        ∀ n ∈ terms, n.BindsLeft := by
  have hchildren : (Node.expr span (.nodes terms) (.operators operators)).children =
      terms.map .node := List.append_nil _
  constructor
  · intro h
    exact ⟨h _ _ _ .refl, fun n hn _ _ _ hhas =>
      h _ _ _ ((Node.has_iff hchildren).2 (.inr ⟨n, hn, hhas⟩))⟩
  · rintro ⟨hself, hterms⟩ _ _ _ hhas
    rcases (Node.has_iff hchildren).1 hhas with heq | ⟨n, hn, hhas⟩
    · have hfields := congrArg Node.fields heq
      rw [operators_injective (List.cons.inj (List.cons.inj hfields).2).1]
      exact hself
    · exact hterms n hn _ _ _ hhas

theorem bindsLeft_call_iff {span : Option Span} {callee : Value} {arguments : List Node} :
    (Node.call span callee (.nodes arguments)).BindsLeft ↔ ∀ n ∈ arguments, n.BindsLeft := by
  have hchildren : (Node.call span callee (.nodes arguments)).children =
      arguments.map .node := List.append_nil _
  constructor
  · exact fun h n hn _ _ _ hhas => h _ _ _ ((Node.has_iff hchildren).2 (.inr ⟨n, hn, hhas⟩))
  · intro h _ _ _ hhas
    rcases (Node.has_iff hchildren).1 hhas with heq | ⟨n, hn, hhas⟩
    · exact NodeType.noConfusion (congrArg Node.type heq)
    · exact h n hn _ _ _ hhas

/-- There is no expression in a node without children that is none itself. -/
theorem bindsLeft_of_no_children {n : Node} (hchildren : n.children = []) (htype : n.type ≠ .expr) :
    n.BindsLeft := by
  intro _ _ _ hhas
  exact absurd (congrArg Node.type (Node.eq_of_has hchildren hhas)).symm htype

theorem bindsLeft_chainExpr_iff {span : Option Span} {first : Node}
    {rest : List (Operator × Node)} {f : Node → Node} :
    (chainExpr span first rest).BindsLeft ↔
      AllBindFirst (rest.map (Prod.map Operator.operation f)) ∧
        ∀ n ∈ first :: rest.map Prod.snd, n.BindsLeft := by
  have hchain : AllBindFirst (rest.map (Prod.map Operator.operation f)) ↔
      ((rest.map Prod.fst).map Operator.operation).IsChain Operation.BindsFirst := by
    rw [List.isChain_iff_pairwise, AllBindFirst, List.pairwise_map, List.pairwise_map,
      List.pairwise_map]
    rfl
  rw [hchain]
  exact bindsLeft_expr_iff

/-! ## Regrouped terms -/

theorem sizeAll_map_congr {f g : Node → Node} {ns : List Node}
    (h : ∀ n ∈ ns, (f n).size = (g n).size) :
    sizeAll ((ns.map f).map .node) = sizeAll ((ns.map g).map .node) := by
  induction ns with
  | nil => rfl
  | cons n ns ih =>
      obtain ⟨hfirst, hlater⟩ := List.forall_mem_cons.1 h
      rw [List.map_cons, List.map_cons, List.map_cons, List.map_cons, sizeAll, sizeAll, ih hlater]
      exact congrArg (· + _) hfirst

/-- Regrouping leaves the number of nodes the same, however the operands of chains are joined. -/
theorem IsTerm.size_regroup {chain chain' : Node → List Pair → Node}
    (hchain : ∀ first rest, Joins first rest (chain first rest))
    (hchain' : ∀ first rest, Joins first rest (chain' first rest)) {n : Node} (h : IsTerm n) :
    (n.regroup chain).size = (n.regroup chain').size := by
  induction n, h using IsTerm.chainInduction with
  | chain span first rest _ ih =>
      rw [regroup_chainExpr, regroup_chainExpr, (hchain _ _).size_eq, (hchain' _ _).size_eq,
        ih first List.mem_cons_self]
      refine congrArg _ (sizeRest_map_congr fun p hp => ?_)
      exact ih p.2 (List.mem_cons_of_mem first (List.mem_map_of_mem hp))
  | call span callee arguments _ _ ih =>
      rw [regroup_call, regroup_call]
      exact congrArg (fun k => 1 + (callee.size + (k + 0))) (sizeAll_map_congr ih)
  | identifier | number => rfl

/-- Where each operation goes before the next, both ways of regrouping give the same tree. -/
theorem IsTerm.regroup_eq_of_bindsLeft {n : Node} (h : IsTerm n) (hleft : n.BindsLeft) :
    n.regroup splitTree = n.regroup leftTree := by
  induction n, h using IsTerm.chainInduction with
  | chain span first rest _ ih =>
      obtain ⟨hchain, hterms⟩ := bindsLeft_chainExpr_iff.1 hleft
      have hterm : ∀ n ∈ first :: rest.map Prod.snd, n.regroup splitTree = n.regroup leftTree :=
        fun n hn => ih n hn (hterms n hn)
      have hrest : rest.map (Prod.map Operator.operation (Node.regroup splitTree)) =
          rest.map (Prod.map Operator.operation (Node.regroup leftTree)) :=
        List.map_congr_left fun p hp => Prod.ext rfl
          (hterm p.2 (List.mem_cons_of_mem first (List.mem_map_of_mem hp)))
      rw [regroup_chainExpr, regroup_chainExpr, hterm first List.mem_cons_self, hrest]
      exact splitTree_eq_leftTree hchain
  | call span callee arguments _ _ ih =>
      have harguments := List.map_congr_left fun n hn =>
        ih n hn (bindsLeft_call_iff.1 hleft n hn)
      rw [regroup_call, regroup_call, harguments]
  | identifier | number => rfl

/-- Where both ways of regrouping give equal trees, each operation goes before the next. -/
theorem IsTerm.bindsLeft_of_equal {n : Node} (h : IsTerm n)
    (hequal : (n.regroup splitTree).equal (n.regroup leftTree) = true) : n.BindsLeft := by
  induction n, h using IsTerm.chainInduction with
  | chain span first rest hterms ih =>
      rw [regroup_chainExpr, regroup_chainExpr] at hequal
      obtain ⟨hchain, hfirst, hrest⟩ := allBindFirst_of_equal (fun p hp =>
        (hterms p.2 (List.mem_cons_of_mem first (List.mem_map_of_mem hp))).size_regroup
          joins_splitTree joins_leftTree) hequal
      refine bindsLeft_chainExpr_iff.2 ⟨hchain, List.forall_mem_cons.2
        ⟨ih first List.mem_cons_self hfirst, List.forall_mem_map.2 fun p hp => ?_⟩⟩
      exact ih p.2 (List.mem_cons_of_mem first (List.mem_map_of_mem hp)) (hrest p hp)
  | call span callee arguments _ _ ih =>
      rw [regroup_call, regroup_call] at hequal
      simp only [Node.equal, equalAll, Bool.and_eq_true, and_true] at hequal
      have harguments := Value.equal_nodes_iff.1 hequal.2.2
      rw [List.forall₂_map_left_iff, List.forall₂_map_right_iff, List.forall₂_same] at harguments
      exact bindsLeft_call_iff.2 fun n hn => ih n hn (harguments n hn)
  | identifier | number => exact bindsLeft_of_no_children rfl NodeType.noConfusion

/-! ## Terms with texts for names -/

/-- Terms in which every expression has one more term than operators, with texts for names and for
the pieces of numbers. -/
inductive IsTextTerm : Node → Prop where
  | expr {span : Option Span} {terms : List Node} {operators : List Operator}
      (hlength : terms.length = operators.length + 1) (hterms : ∀ n ∈ terms, IsTextTerm n) :
      IsTextTerm (.expr span (.nodes terms) (.operators operators))
  | call {span : Option Span} {callee : String} {arguments : List Node}
      (hexprs : ∀ n ∈ arguments, n.isExpr = true) (harguments : ∀ n ∈ arguments, IsTextTerm n) :
      IsTextTerm (.call span (.text callee) (.nodes arguments))
  | identifier {span : Option Span} {name : String} : IsTextTerm (.identifier span (.text name))
  | number {span : Option Span} {sign integer : String} {fraction exponent : Option String} :
      IsTextTerm (.number span (.text sign) (.text integer) (.optionalText fraction)
        (.optionalText exponent))

theorem IsTextTerm.isTerm {n : Node} (h : IsTextTerm n) : IsTerm n := by
  induction h with
  | expr hlength _ ih => exact .expr hlength ih
  | call hexprs _ ih => exact .call hexprs ih
  | identifier => exact .identifier
  | number => exact .number

/-- A term with texts for names equals itself. -/
theorem IsTextTerm.equal_self {n : Node} (h : IsTextTerm n) : n.equal n = true := by
  induction h with
  | expr _ _ ih =>
      have hterms := Value.equal_nodes_iff.2 (List.forall₂_same.2 ih)
      exact Node.equal_of_fields
        (equalAll_cons hterms (equalAll_cons (Value.equal_operators _) rfl))
  | call _ _ ih =>
      have harguments := Value.equal_nodes_iff.2 (List.forall₂_same.2 ih)
      exact Node.equal_of_fields (equalAll_cons (Value.equal_text _) (equalAll_cons harguments rfl))
  | identifier => exact Node.equal_of_fields (equalAll_cons (Value.equal_text _) rfl)
  | number =>
      exact Node.equal_of_fields (equalAll_cons (Value.equal_text _)
        (equalAll_cons (Value.equal_text _) (equalAll_cons (Value.equal_optionalText _)
          (equalAll_cons (Value.equal_optionalText _) rfl))))

/-! ## Both ways of grouping -/

/-- Grouping an expression by precedence and grouping it from left to right give equal trees just
when in every expression in it, of two neighbouring operations the left one is put together
first. -/
theorem group_equal_groupLeft_iff {e : Node} (hexpr : e.isExpr = true) (h : IsTextTerm e) :
    ∃ m n, e.group.outcome = .ok m ∧ e.groupLeft.outcome = .ok n ∧
      (m.equal n = true ↔ e.BindsLeft) := by
  refine ⟨_, _, h.isTerm.apply_outcome hexpr .byPrecedence,
    h.isTerm.apply_outcome hexpr .leftToRight, h.isTerm.bindsLeft_of_equal, fun hleft => ?_⟩
  show (e.regroup splitTree).equal (e.regroup leftTree) = true
  rw [h.isTerm.regroup_eq_of_bindsLeft hleft]
  exact h.isTerm.equal_regroup equal_leftTree h.equal_self

/-- `a ^ (b * f(c < d)) * c - d < a`. -/
def descendingChain : Node :=
  .expr none (.nodes [operandNamed "a",
    .expr none (.nodes [operandNamed "b",
      .call none (.text "f") (.nodes [comparedOperand])]) (.operators [.multiply]),
    operandNamed "c", operandNamed "d", operandNamed "a"])
    (.operators [.power, .multiply, .subtract, .less])

theorem bindsLeft_operandNamed (s : String) : (operandNamed s).BindsLeft :=
  bindsLeft_of_no_children rfl NodeType.noConfusion

theorem group_equal_groupLeft_iff_descending :
    descendingChain.isExpr = true ∧ IsTextTerm descendingChain ∧ descendingChain.BindsLeft ∧
      ∃ m n, descendingChain.group.outcome = .ok m ∧ descendingChain.groupLeft.outcome = .ok n ∧
        m.equal n = true := by
  have hname : ∀ s, IsTextTerm (operandNamed s) := fun _ => .identifier
  have hcompared : IsTextTerm comparedOperand := .expr rfl (by simp [hname])
  have hcall : IsTextTerm (.call none (.text "f") (.nodes [comparedOperand])) :=
    .call (List.forall_mem_singleton.2 rfl) (List.forall_mem_singleton.2 hcompared)
  have hinner : IsTextTerm (.expr none (.nodes [operandNamed "b",
      .call none (.text "f") (.nodes [comparedOperand])]) (.operators [.multiply])) :=
    .expr rfl (by simp [hname, hcall])
  have h : IsTextTerm descendingChain := .expr rfl (by simp [hname, hinner])
  have hleft : descendingChain.BindsLeft := by
    simp only [descendingChain, comparedOperand, bindsLeft_expr_iff, bindsLeft_call_iff,
      List.forall_mem_cons, bindsLeft_operandNamed, List.not_mem_nil, false_implies, implies_true,
      and_true, true_and]
    decide
  obtain ⟨m, n, hm, hn, hiff⟩ := group_equal_groupLeft_iff (e := descendingChain) rfl h
  exact ⟨rfl, h, hleft, m, n, hm, hn, hiff.2 hleft⟩

example : ¬mixedChain.BindsLeft := fun h => absurd (h _ _ _ .refl) (by decide)

end Spruce
