import Spruce.Proofs.Precedence.Comparisons

set_option autoImplicit false

/-!
# Climbing by position

The operands and operations of a chain may stay where they are while a position moves over them
(`climbFrom`). Whatever is read at the position might not be there, which is a fault; otherwise
this is climbing over the operations from the position on, each with the operand after it
(`climbOn_eq_climb`). From the lowest level all operations are taken in, so that there is a fault
just when the chain lacks an operand (`groupOperands_eq_climbFrom`).

With one more operand than operations nothing is read that is not there. The position is left at
the first operation that is too loose, or behind the last one, and the tree is an ordered grouping
of the stretch that was passed over (`climbFrom_run`).

Main definitions: `climbFrom`, `EndsRun`, `Grouped.operands`, `Grouped.operations` and
`Grouped.IsOrdered`.
-/

namespace Spruce

/-! ## Positions -/

section

variable (operands : List Node) (operations : List Operation)

mutual

/-- The operand at a position, with the operations of at least the given level that follow it taken
in, and the position where the next one would be. -/
def climbFrom (level p : Nat) : Except Fault (Node × { q : Nat // p ≤ q }) :=
  match operands[p]? with
  | none => .error .missingOperand
  | some left => climbOn level left p
termination_by (operations.length - p, 1)

/-- An operand with the operations of at least the given level from a position on taken in, and the
position where the next one would be. -/
def climbOn (level : Nat) (left : Node) (p : Nat) : Except Fault (Node × { q : Nat // p ≤ q }) :=
  match h : operations[p]? with
  | none => .ok (left, ⟨p, Nat.le_refl p⟩)
  | some o =>
      if o.level < level then .ok (left, ⟨p, Nat.le_refl p⟩)
      else
        match climbFrom o.operandLevel (p + 1) with
        | .error fault => .error fault
        | .ok (right, ⟨q, hq⟩) =>
            match climbOn level (joined o left right) q with
            | .error fault => .error fault
            | .ok (whole, ⟨r, hr⟩) => .ok (whole, ⟨r, by omega⟩)
termination_by (operations.length - p, 0)
decreasing_by
  all_goals
    have hlt := (List.getElem?_eq_some_iff.1 h).1
    apply Prod.Lex.left
    omega

end

/-- The operations from a position on, each with the operand after it. -/
def pairsFrom (p : Nat) : List Pair := (operations.drop p).zip (operands.drop (p + 1))

end

section

variable {operands : List Node} {operations : List Operation} {level p : Nat} {o : Operation}
  {left operand : Node}

theorem pairsFrom_eq_cons (ho : operations[p]? = some o) (hoperand : operands[p + 1]? = some operand) :
    pairsFrom operands operations p = (o, operand) :: pairsFrom operands operations (p + 1) := by
  obtain ⟨hlt, rfl⟩ := List.getElem?_eq_some_iff.1 ho
  obtain ⟨hlt', rfl⟩ := List.getElem?_eq_some_iff.1 hoperand
  rw [pairsFrom, List.drop_eq_getElem_cons hlt, List.drop_eq_getElem_cons hlt']
  rfl

/-- What is taken in first from a position on is the operation that stands there. -/
theorem head?_pairsFrom {q : Pair} (h : q ∈ (pairsFrom operands operations p).head?) :
    operations[p]? = some q.1 := by
  rw [pairsFrom, List.head?_eq_getElem?, Option.mem_def, List.getElem?_zip_eq_some] at h
  rw [← h.1, List.getElem?_drop, Nat.add_zero]

/-! ## Climbing -/

/-- Nothing is taken in where no operation of at least the level asked for comes next. -/
theorem climb_of_exhausted (left : Node) {rest : List Pair} (h : Exhausted level rest) :
    (climb level left rest).1 = left ∧ (climb level left rest).2.1 = rest := by
  cases rest with
  | nil =>
      rw [climb]
      exact ⟨rfl, rfl⟩
  | cons q rest =>
      rw [climb, if_pos (h q rfl)]
      exact ⟨rfl, rfl⟩

theorem climbOn_stop (h : ∀ o ∈ operations[p]?, o.level < level) :
    climbOn operands operations level left p = .ok (left, ⟨p, Nat.le_refl p⟩) := by
  rw [climbOn]
  split
  · rfl
  · next o ho => rw [if_pos (h o ho)]

/-- An operation that is taken in takes its right operand from behind it. -/
theorem climbOn_take (ho : operations[p]? = some o) (hlevel : ¬o.level < level) :
    climbOn operands operations level left p =
      match climbFrom operands operations o.operandLevel (p + 1) with
      | .error fault => .error fault
      | .ok (right, ⟨q, hq⟩) =>
          match climbOn operands operations level (joined o left right) q with
          | .error fault => .error fault
          | .ok (whole, ⟨r, hr⟩) => .ok (whole, ⟨r, by omega⟩) := by
  rw [climbOn]
  split
  · next hnone => exact absurd (hnone.symm.trans ho) (Option.some_ne_none o).symm
  · next o' ho' =>
      obtain rfl := Option.some.inj (ho'.symm.trans ho)
      rw [if_neg hlevel]

/-- Climbing by position is climbing over what stands from the position on, unless an operand is
missing. -/
theorem climbOn_eq_climb (operations : List Operation) (level : Nat) (left : Node) {p : Nat}
    (hp : p < operands.length) :
    (∃ (q : Nat) (hq : p ≤ q),
      climbOn operands operations level left p =
        .ok ((climb level left (pairsFrom operands operations p)).1, ⟨q, hq⟩) ∧
      (climb level left (pairsFrom operands operations p)).2.1 = pairsFrom operands operations q ∧
      q < operands.length ∧ ∀ o ∈ operations[q]?, o.level < level) ∨
    climbOn operands operations level left p = .error .missingOperand ∧
      operands.length ≤ operations.length := by
  by_cases hstop : ∀ o ∈ operations[p]?, o.level < level
  · have hexhausted : Exhausted level (pairsFrom operands operations p) := fun q hq =>
      hstop q.1 (head?_pairsFrom hq)
    obtain ⟨htree, hlater⟩ := climb_of_exhausted left hexhausted
    exact .inl ⟨p, Nat.le_refl p, by rw [climbOn_stop hstop, htree], hlater, hp, hstop⟩
  · simp only [not_forall] at hstop
    obtain ⟨o, ho, hlevel⟩ := hstop
    have hlt := (List.getElem?_eq_some_iff.1 ho).1
    rw [climbOn_take ho hlevel, climbFrom]
    cases hoperand : operands[p + 1]? with
    | none =>
        have hmissing := List.getElem?_eq_none_iff.1 hoperand
        exact .inr ⟨rfl, by omega⟩
    | some operand =>
        have hnext := (List.getElem?_eq_some_iff.1 hoperand).1
        rw [pairsFrom_eq_cons ho hoperand]
        obtain ⟨htree, hlater⟩ := climb_cons hlevel left operand
          (pairsFrom operands operations (p + 1))
        -- first the right operand takes in what is its, and then the whole takes in more
        rcases climbOn_eq_climb operations o.operandLevel operand hnext with
          ⟨q, hq, hright, hrest, hlength, -⟩ | ⟨hfault, hshort⟩
        · rw [hrest] at htree hlater
          rcases climbOn_eq_climb operations level (joined o left (climb o.operandLevel operand
              (pairsFrom operands operations (p + 1))).1) hlength with
            ⟨r, hr, hwhole, hlast, hbound, hend⟩ | ⟨hfault, hshort⟩
          · refine .inl ⟨r, by omega, ?_, hlater.trans hlast, hbound, hend⟩
            simp only [hright, hwhole, htree]
          · exact .inr ⟨by simp only [hright, hfault], hshort⟩
        · exact .inr ⟨by simp only [hfault], hshort⟩
termination_by operations.length - p
decreasing_by all_goals omega

end

/-- Grouping the operands of a chain is climbing from its start at the lowest level. -/
theorem groupOperands_eq_climbFrom (operands : List Node) (operations : List Operation) :
    groupOperands operands operations =
      (climbFrom operands operations 0 0).map fun result => result.1 := by
  rw [climbFrom]
  cases operands with
  | nil => rfl
  | cons first others =>
      have hpairs : pairsFrom (first :: others) operations 0 = operations.zip others := rfl
      show _ = (climbOn (first :: others) operations 0 first 0).map _
      have hfirst : 0 < (first :: others).length := Nat.zero_lt_succ others.length
      rcases climbOn_eq_climb operations 0 first hfirst with
        ⟨q, hq, htree, -, hlength, hend⟩ | ⟨hfault, hshort⟩
      -- no operation is looser than the lowest level, so all have been taken in
      · have hall : operations.length ≤ q := by
          rw [← List.getElem?_eq_none_iff, Option.eq_none_iff_forall_not_mem]
          exact fun o ho => Nat.not_lt_zero _ (hend o ho)
        have hlong : ¬others.length < operations.length := by
          rw [List.length_cons] at hlength
          omega
        rw [htree, groupOperands, groupChain, if_neg hlong, hpairs]
        rfl
      · have hlack : others.length < operations.length := hshort
        rw [hfault, groupOperands, groupChain, if_pos hlack]
        rfl

/-! ## Ordered groupings -/

namespace Grouped

/-- The operands of a grouping, in order. -/
def operands : Grouped → List Node
  | operand n => [n]
  | operation _ left right => left.operands ++ right.operands

/-- The operations of a grouping, in order. -/
def operations : Grouped → List Operation
  | operand _ => []
  | operation o left right => left.operations ++ o :: right.operations

/-- The operation that is put together last, if there is one. -/
def operation? : Grouped → Option Operation
  | operand _ => none
  | operation o _ _ => some o

/-- No operation has a looser one for an operand, and one of its own level only on the left, or
under a power only on the right. -/
def IsOrdered : Grouped → Prop
  | operand _ => True
  | operation o left right =>
      (∀ o' ∈ left.operation?, o.level ≤ o'.level ∧ (o = .power → o'.level ≠ o.level)) ∧
        (∀ o' ∈ right.operation?, o.level ≤ o'.level ∧ (o ≠ .power → o'.level ≠ o.level)) ∧
          left.IsOrdered ∧ right.IsOrdered

theorem operands_eq (t : Grouped) : t.operands = t.first :: t.rest.map Prod.snd := by
  induction t with
  | operand n => rfl
  | operation o left right ihleft ihright =>
      rw [operands, ihleft, ihright, first, rest, List.map_append]
      rfl

theorem operations_eq (t : Grouped) : t.operations = t.rest.map Prod.fst := by
  induction t with
  | operand n => rfl
  | operation o left right ihleft ihright =>
      rw [operations, ihleft, ihright, rest, List.map_append]
      rfl

/-- The operation that is put together last is one of those of the chain. -/
theorem exists_mem_rest {t : Grouped} {o : Operation} (h : o ∈ t.operation?) :
    ∃ p ∈ t.rest, p.1 = o := by
  cases t with
  | operand n => exact absurd h.symm (Option.some_ne_none o)
  | operation o' left right =>
      obtain rfl := Option.some.inj h
      exact ⟨_, List.mem_append_right _ List.mem_cons_self, rfl⟩

end Grouped

/-- The tree of a chain that is split at its loosest operation has an ordered grouping. -/
theorem exists_ordered_splitTree (first : Node) (rest : List Pair) :
    ∃ t : Grouped, t.first = first ∧ t.rest = rest ∧ t.tree = splitTree first rest ∧
      t.IsOrdered := by
  induction first, rest using splitInduction with
  | single first => exact ⟨.operand first, rfl, rfl, (splitTree_nil first).symm, trivial⟩
  | split first operand before after o hsplits ihleft ihright =>
      obtain ⟨left, rfl, rfl, hleft, hleftOrdered⟩ := ihleft
      obtain ⟨right, rfl, rfl, hright, hrightOrdered⟩ := ihright
      refine ⟨.operation o left right, rfl, rfl, ?_, ?_, ?_, hleftOrdered, hrightOrdered⟩
      · rw [hsplits.splitTree_eq, ← hleft, ← hright]
        rfl
      · intro o' ho'
        obtain ⟨p, hp, rfl⟩ := Grouped.exists_mem_rest ho'
        refine ⟨hsplits.lowest p (List.mem_append_left _ hp), ?_⟩
        rintro rfl
        exact hsplits.first_of_power rfl p hp
      · intro o' ho'
        obtain ⟨p, hp, rfl⟩ := Grouped.exists_mem_rest ho'
        refine ⟨hsplits.lowest p (List.mem_append_right _ hp), fun hother => ?_⟩
        exact hsplits.last_of_others (mt Operation.eq_power_of_level hother) p hp

/-! ## The run that is passed over -/

/-- Climbing at a level ends at the position: it is behind all operations, or a looser one stands
there. -/
def EndsRun (operations : List Operation) (level p : Nat) : Prop :=
  p = operations.length ∨ ∃ o ∈ operations[p]?, o.level < level

instance (operations : List Operation) (level p : Nat) : Decidable (EndsRun operations level p) :=
  inferInstanceAs (Decidable (_ ∨ _))

section

variable {operands : List Node} {operations : List Operation} {p q : Nat}

/-- Of what stands from a position on, a beginning up to another position has the operations and
the right operands in between. -/
theorem map_eq_take_of_pairsFrom (hlength : operands.length = operations.length + 1)
    (hq : q ≤ operations.length) {run : List Pair}
    (h : pairsFrom operands operations p = run ++ pairsFrom operands operations q) :
    run.map Prod.fst = (operations.drop p).take (q - p) ∧
      run.map Prod.snd = (operands.drop (p + 1)).take (q - p) := by
  have hcount : ∀ i, (pairsFrom operands operations i).length = operations.length - i := by
    intro i
    rw [pairsFrom, List.length_zip, List.length_drop, List.length_drop]
    omega
  have hrun : run.length = q - p := by
    have hcounts := congrArg List.length h
    rw [List.length_append, hcount, hcount] at hcounts
    omega
  have hfst : (pairsFrom operands operations p).map Prod.fst = operations.drop p :=
    List.map_fst_zip (by simp only [List.length_drop]; omega)
  have hsnd : (pairsFrom operands operations p).map Prod.snd = operands.drop (p + 1) :=
    List.map_snd_zip (by simp only [List.length_drop]; omega)
  constructor
  · rw [← hfst, h, List.map_append, List.take_left' (by rw [List.length_map, hrun])]
  · rw [← hsnd, h, List.map_append, List.take_left' (by rw [List.length_map, hrun])]

/-- No position before the end of a run of operations of at least the given level ends it. -/
theorem not_endsRun_of_take {level : Nat}
    (h : ∀ o ∈ (operations.drop p).take (q - p), level ≤ o.level) (hq : q ≤ operations.length) :
    ∀ i, p ≤ i → i < q → ¬EndsRun operations level i := by
  rintro i hpi hiq (rfl | ⟨o, ho, hloose⟩)
  · omega
  · have hthere : ((operations.drop p).take (q - p))[i - p]? = some o := by
      rw [List.getElem?_take_of_lt (by omega), List.getElem?_drop, Nat.add_sub_cancel' hpi, ho]
    have hle := h o (List.mem_of_getElem? hthere)
    omega

end

/-- Climbing by position over a chain reads nothing that is not there. It leaves the position at the
first place where a run of operations of at least the given level ends, and makes of the operands
and operations that it passed over, each of which it takes once, an ordered grouping, which is what
climbing makes of them. -/
theorem climbFrom_run {operands : List Node} {operations : List Operation}
    (hlength : operands.length = operations.length + 1) (level : Nat) {p : Nat}
    (hp : p ≤ operations.length) :
    ∃ (tree : Node) (q : Nat) (hq : p ≤ q),
      climbFrom operands operations level p = .ok (tree, ⟨q, hq⟩) ∧
      (∃ left, operands[p]? = some left ∧
        (climb level left (pairsFrom operands operations p)).1 = tree ∧
        (climb level left (pairsFrom operands operations p)).2.1 =
          pairsFrom operands operations q) ∧
      (EndsRun operations level q ∧ ∀ i, p ≤ i → i < q → ¬EndsRun operations level i) ∧
      ∃ t : Grouped, t.tree = tree ∧ t.operands = (operands.drop p).take (q - p + 1) ∧
        t.operations = (operations.drop p).take (q - p) ∧ t.IsOrdered := by
  have hthere : p < operands.length := by omega
  have hread : operands[p]? = some operands[p] := List.getElem?_eq_getElem hthere
  rcases climbOn_eq_climb operations level operands[p] hthere with
    ⟨q, hq, hresult, hlater, hbound, hend⟩ | ⟨-, hshort⟩
  · have hqle : q ≤ operations.length := by omega
    obtain ⟨run, hrest, hrun, -, hsplit⟩ :=
      climb_eq_splitTree level operands[p] (pairsFrom operands operations p)
    rw [hlater] at hrest
    obtain ⟨hoperations, hoperands⟩ := map_eq_take_of_pairsFrom hlength hqle hrest
    obtain ⟨t, hfirst, htrest, htree, hordered⟩ := exists_ordered_splitTree operands[p] run
    refine ⟨_, q, hq, ?_, ⟨_, hread, rfl, hlater⟩, ⟨?_, ?_⟩, t, htree.trans hsplit.symm, ?_, ?_,
      hordered⟩
    · rw [climbFrom, hread]
      exact hresult
    · rcases Nat.eq_or_lt_of_le hqle with heq | hlt
      · exact .inl heq
      · have ho := List.getElem?_eq_getElem hlt
        exact .inr ⟨_, ho, hend _ ho⟩
    · refine not_endsRun_of_take ?_ hqle
      rw [← hoperations]
      exact List.forall_mem_map.2 hrun
    · rw [t.operands_eq, hfirst, htrest, hoperands, List.drop_eq_getElem_cons hthere,
        List.take_succ_cons]
    · rw [t.operations_eq, htrest, hoperations]
  · omega

/-- The operations of `a < b - c ^ d * a == b`. -/
def comparedOperations : List Operation := [.compareLt, .subtract, .power, .multiply, .compareEq]

/-- From `b` on, climbing at the level of sums takes in all up to the second comparison. -/
theorem climbFrom_run_compared :
    (["a", "b", "c", "d", "a", "b"].map operandNamed).length = comparedOperations.length + 1 ∧
      1 ≤ comparedOperations.length ∧
      ∃ (tree : Node) (hq : 1 ≤ 4),
        climbFrom (["a", "b", "c", "d", "a", "b"].map operandNamed) comparedOperations 2 1 =
          .ok (tree, ⟨4, hq⟩) ∧
        ∃ t : Grouped, t.tree = tree ∧
          t.operands = ["b", "c", "d", "a"].map operandNamed ∧
          t.operations = [.subtract, .power, .multiply] ∧ t.IsOrdered := by
  have hlength : (["a", "b", "c", "d", "a", "b"].map operandNamed).length =
      comparedOperations.length + 1 := rfl
  have hp : 1 ≤ comparedOperations.length := by decide
  obtain ⟨tree, q, hq, hresult, -, ⟨hend, hfirst⟩, t, htree, hoperands, hoperations, hordered⟩ :=
    climbFrom_run hlength 2 hp
  -- the run ends where the second comparison stands, and at no operation before it
  have hcomparison : EndsRun comparedOperations 2 4 := by decide
  have hbefore : ∀ i < 4, 1 ≤ i → ¬EndsRun comparedOperations 2 i := by decide
  have hle : q ≤ 4 := Nat.le_of_not_lt fun hlt => hfirst 4 (by decide) hlt hcomparison
  have hge : 4 ≤ q := Nat.le_of_not_lt fun hlt => hbefore q hlt hq hend
  obtain rfl := Nat.le_antisymm hle hge
  exact ⟨hlength, hp, tree, hq, hresult, t, htree, hoperands, hoperations, hordered⟩

end Spruce
