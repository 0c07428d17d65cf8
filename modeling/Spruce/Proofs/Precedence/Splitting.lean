import Spruce.Precedence.Climbing

set_option autoImplicit false

/-!
# Splitting a chain at its loosest operation

What precedence means can be said without any climbing. A chain of operands and operations falls
apart at one of its operations of the lowest level: at the last of them if the level associates to
the left, and at the first if it associates to the right. The operands before that operation make
its left side and those after it the right, each by the same rule (`splitTree`).

Climbing takes in the longest run of operations that are at least of the level asked for, and makes
of the run what splitting makes of it (`climb_eq_splitTree`). The step is `splitTree_collapse`: an
operation and the run that its right operand takes in may be put together first, as everything
after them binds more loosely.

Main definitions: `lowestLevel`, `splitPlace` and `splitTree`.
-/

namespace Spruce

/-! ## Where a chain falls apart -/

/-- The lowest level among the operations of a chain. -/
def lowestLevel (rest : List Pair) : Nat :=
  rest.foldr (fun p m => min p.1.level m) Operation.power.level

/-- The place of the operation that a chain falls apart at: of those of the lowest level the first
if that is the level of powers, and otherwise the last. -/
def splitPlace (rest : List Pair) : Nat :=
  let isLowest : Pair → Bool := fun p => p.1.level = lowestLevel rest
  if lowestLevel rest = Operation.power.level then rest.findIdx isLowest
  else rest.length - 1 - rest.reverse.findIdx isLowest

/-- The tree of a chain, given its first operand and its operations, each with the operand after
it. The chain is split at one operation, and either side of it is a chain again. -/
def splitTree (first : Node) (rest : List Pair) : Node :=
  match _ : rest.drop (splitPlace rest) with
  | [] => first
  | (o, operand) :: after =>
      let left := splitTree first (rest.take (splitPlace rest))
      let right := splitTree operand after
      .binary (Span.join left.span right.span) (.operation o) (.node left) (.node right)
termination_by rest.length
decreasing_by
  all_goals
    have hlength := congrArg List.length ‹rest.drop _ = _›
    simp only [List.length_drop, List.length_cons, List.length_take] at hlength ⊢
    omega

/-- An operation at which a chain falls apart, with the operations before and after it. -/
structure Splits (before : List Pair) (o : Operation) (after : List Pair) : Prop where
  lowest : ∀ p ∈ before ++ after, o.level ≤ p.1.level
  first_of_power : o.level = Operation.power.level → ∀ p ∈ before, p.1.level ≠ o.level
  last_of_others : o.level ≠ Operation.power.level → ∀ p ∈ after, p.1.level ≠ o.level

/-! ## Levels -/

namespace Operation

theorem level_le_power (o : Operation) : o.level ≤ power.level := by
  cases o <;> decide

theorem operandLevel_le_power (o : Operation) : o.operandLevel ≤ power.level := by
  cases o <;> decide

theorem level_le_operandLevel (o : Operation) : o.level ≤ o.operandLevel := by
  cases o <;> decide

theorem operandLevel_le_succ (o : Operation) : o.operandLevel ≤ o.level + 1 := by
  cases o <;> decide

/-- Only powers take operations of their own level into their right operand. -/
theorem level_lt_operandLevel {o : Operation} (h : o.level ≠ power.level) :
    o.level < o.operandLevel := by
  cases o <;> revert h <;> decide

end Operation

theorem lowestLevel_le {rest : List Pair} {p : Pair} (h : p ∈ rest) :
    lowestLevel rest ≤ p.1.level := by
  induction rest with
  | nil => exact absurd h List.not_mem_nil
  | cons q qs ih =>
      simp only [lowestLevel, List.foldr_cons]
      rcases List.mem_cons.1 h with rfl | hqs
      · exact Nat.min_le_left _ _
      · exact Nat.le_trans (Nat.min_le_right _ _) (ih hqs)

theorem le_lowestLevel {rest : List Pair} {m : Nat} (hm : m ≤ Operation.power.level)
    (h : ∀ p ∈ rest, m ≤ p.1.level) : m ≤ lowestLevel rest := by
  induction rest with
  | nil => exact hm
  | cons q qs ih =>
      have hqs := ih fun p hp => h p (List.mem_cons_of_mem q hp)
      exact Nat.le_min.2 ⟨h q List.mem_cons_self, hqs⟩

/-! ## The place of a split -/

namespace Splits

variable {before after : List Pair} {o : Operation}

theorem lowestLevel_eq (h : Splits before o after) (operand : Node) :
    lowestLevel (before ++ (o, operand) :: after) = o.level := by
  apply Nat.le_antisymm
  · have hmem : (o, operand) ∈ before ++ (o, operand) :: after := by simp
    exact lowestLevel_le hmem
  · apply le_lowestLevel o.level_le_power
    intro p hp
    rcases List.mem_append.1 hp with hp | hp
    · exact h.lowest p (List.mem_append_left _ hp)
    · rcases List.mem_cons.1 hp with rfl | hp
      · exact Nat.le_refl _
      · exact h.lowest p (List.mem_append_right _ hp)

/-- A chain falls apart at the operation that is the right one among those of its level. -/
theorem splitPlace_eq (h : Splits before o after) (operand : Node) :
    splitPlace (before ++ (o, operand) :: after) = before.length := by
  simp only [splitPlace, h.lowestLevel_eq operand]
  split
  -- the first of its level: none of those before it is of that level
  · next hpower =>
      have hidx : before.findIdx (fun p => decide (p.1.level = o.level)) = before.length := by
        rw [List.findIdx_eq_length]
        intro p hp
        exact decide_eq_false (h.first_of_power hpower p hp)
      simp [List.findIdx_append, List.findIdx_cons, hidx]
  -- the last of its level: none of those after it is of that level
  · next hpower =>
      have hidx : after.reverse.findIdx (fun p => decide (p.1.level = o.level)) =
          after.length := by
        rw [← List.length_reverse, List.findIdx_eq_length]
        intro p hp
        exact decide_eq_false (h.last_of_others hpower p (List.mem_reverse.1 hp))
      simp [List.findIdx_append, List.findIdx_cons, hidx]

/-- A chain is split where it falls apart. -/
theorem splitTree_eq (h : Splits before o after) (first operand : Node) :
    splitTree first (before ++ (o, operand) :: after) =
      joined o (splitTree first before) (splitTree operand after) := by
  have hplace := h.splitPlace_eq operand
  rw [splitTree, hplace, List.take_left, List.drop_left]
  rfl

end Splits

theorem splitTree_nil (first : Node) : splitTree first [] = first := by
  rw [splitTree]
  rfl

/-- No operation of a chain is looser than the one it falls apart at. -/
theorem Splits.lowest_all {before after : List Pair} {o : Operation} (h : Splits before o after)
    {operand : Node} {p : Pair} (hp : p ∈ before ++ (o, operand) :: after) :
    o.level ≤ p.1.level := by
  rw [← h.lowestLevel_eq operand]
  exact lowestLevel_le hp

/-- A chain with an operation falls apart somewhere. -/
theorem exists_splits {rest : List Pair} (h : rest ≠ []) :
    ∃ before o operand after, rest = before ++ (o, operand) :: after ∧ Splits before o after := by
  induction rest with
  | nil => exact absurd rfl h
  | cons p ps ih =>
      obtain ⟨o, operand⟩ := p
      by_cases hps : ps = []
      · subst hps
        exact ⟨[], o, operand, [], rfl, by simp, by simp, by simp⟩
      · obtain ⟨before, q, operand', after, rfl, hq⟩ := ih hps
        by_cases hfirst : o.level < q.level ∨ o.level = q.level ∧ q.level = Operation.power.level
        -- the first operation is looser than all others, or all are powers
        · refine ⟨[], o, operand, _, rfl, ?_, by simp, ?_⟩
          · intro p hp
            have hle := hq.lowest_all hp
            omega
          · intro hpower p hp
            have hle := hq.lowest_all hp
            omega
        -- the first operation makes no difference to where the others fall apart
        · refine ⟨(o, operand) :: before, q, operand', after, rfl, ?_, ?_, hq.last_of_others⟩
          · intro p hp
            rcases List.mem_cons.1 hp with rfl | hp
            · show q.level ≤ o.level
              omega
            · exact hq.lowest p hp
          · intro hpower p hp
            rcases List.mem_cons.1 hp with rfl | hp
            · show o.level ≠ q.level
              omega
            · exact hq.first_of_power hpower p hp

/-- An induction over chains that goes on, wherever a chain falls apart, with what is on either
side. -/
theorem splitInduction {motive : Node → List Pair → Prop} (single : ∀ first, motive first [])
    (split : ∀ (first operand : Node) (before after : List Pair) (o : Operation),
      Splits before o after → motive first before → motive operand after →
        motive first (before ++ (o, operand) :: after))
    (first : Node) (rest : List Pair) : motive first rest := by
  by_cases hne : rest = []
  · subst hne
    exact single first
  · obtain ⟨before, o, operand, after, rfl, hsplits⟩ := exists_splits hne
    have hbefore := splitInduction single split first before
    have hafter := splitInduction single split operand after
    exact split first operand before after o hsplits hbefore hafter
termination_by rest.length
decreasing_by
  all_goals
    subst rest
    simp only [List.length_append, List.length_cons]
    omega

/-! ## Climbing -/

/-- No operation of at least the given level comes next. -/
def Exhausted (level : Nat) (rest : List Pair) : Prop := ∀ p ∈ rest.head?, p.1.level < level

theorem Exhausted.of_append {level : Nat} {rest later : List Pair}
    (h : Exhausted level (rest ++ later)) : Exhausted level rest := by
  intro p hp
  cases rest with
  | nil => simp at hp
  | cons q qs => exact h p hp

/-- An operation and the run of operations that its right operand takes in may be put together
before the chain is split, as what comes after them does not bind as tightly. -/
theorem splitTree_collapse (left operand : Node) (o : Operation) {run : List Pair}
    (hrun : ∀ p ∈ run, o.operandLevel ≤ p.1.level) (later : List Pair)
    (hlater : Exhausted o.operandLevel later) :
    splitTree left ((o, operand) :: (run ++ later)) =
      splitTree (joined o left (splitTree operand run)) later := by
  have hlevel := o.level_le_operandLevel
  by_cases hne : later = []
  -- the operation itself is the loosest, or else all are powers and it is the first
  · subst hne
    have hsplits : Splits [] o run := by
      refine ⟨?_, by simp, ?_⟩
      · intro p hp
        exact Nat.le_trans hlevel (hrun p hp)
      · intro hpower p hp
        have hlt := Operation.level_lt_operandLevel hpower
        have hle := hrun p hp
        omega
    rw [List.append_nil, splitTree_nil]
    exact (hsplits.splitTree_eq left operand).trans (by rw [splitTree_nil])
  -- the chain falls apart in the later part, where that falls apart on its own
  · obtain ⟨before, q, operand', after, rfl, hq⟩ := exists_splits hne
    have hhead : ∃ p ∈ (before ++ (q, operand') :: after).head?, q.level ≤ p.1.level := by
      obtain ⟨p, ps, hcons⟩ := List.exists_cons_of_ne_nil hne
      rw [hcons]
      have hmem : p ∈ before ++ (q, operand') :: after := hcons ▸ List.mem_cons_self
      exact ⟨p, rfl, hq.lowest_all hmem⟩
    obtain ⟨p, hp, hqp⟩ := hhead
    have hloose := hlater p hp
    have hbound := o.operandLevel_le_power
    have hsucc := o.operandLevel_le_succ
    have hwhole : Splits ((o, operand) :: (run ++ before)) q after := by
      refine ⟨?_, ?_, hq.last_of_others⟩
      · intro r hr
        rw [List.cons_append, List.append_assoc] at hr
        rcases List.mem_cons.1 hr with rfl | hr
        · show q.level ≤ o.level
          omega
        · rcases List.mem_append.1 hr with hr | hr
          · have hle := hrun r hr
            omega
          · exact hq.lowest r hr
      · intro hpower
        omega
    have ih := splitTree_collapse left operand o hrun before hlater.of_append
    rw [hq.splitTree_eq, ← ih, ← List.append_assoc, ← List.cons_append, hwhole.splitTree_eq]
termination_by later.length
decreasing_by
  subst later
  simp only [List.length_append, List.length_cons]
  omega

/-- An operation that is taken in is climbed from again, with the operand it has made. -/
theorem climb_cons {level : Nat} {o : Operation} (h : ¬o.level < level) (left operand : Node)
    (rest : List Pair) :
    (climb level left ((o, operand) :: rest)).1 =
        (climb level (joined o left (climb o.operandLevel operand rest).1)
          (climb o.operandLevel operand rest).2.1).1 ∧
      (climb level left ((o, operand) :: rest)).2.1 =
        (climb level (joined o left (climb o.operandLevel operand rest).1)
          (climb o.operandLevel operand rest).2.1).2.1 := by
  rw [climb, if_neg h]
  exact ⟨rfl, rfl⟩

/-- Climbing takes in the longest run of operations of at least the given level, and makes of it
the tree that splitting it makes. -/
theorem climb_eq_splitTree (level : Nat) (left : Node) (rest : List Pair) :
    ∃ run, rest = run ++ (climb level left rest).2.1 ∧
      (∀ p ∈ run, level ≤ p.1.level) ∧ Exhausted level (climb level left rest).2.1 ∧
      (climb level left rest).1 = splitTree left run := by
  induction level, left, rest using climb.induct with
  | case1 level left =>
      rw [climb]
      exact ⟨[], rfl, by simp, by simp [Exhausted], (splitTree_nil left).symm⟩
  | case2 level left o operand rest hlt =>
      rw [climb, if_pos hlt]
      exact ⟨[], rfl, by simp, by simpa [Exhausted] using hlt, (splitTree_nil left).symm⟩
  | case3 level left o operand rest hlevel right later hlater hright whole last hlast hwhole
      ih₁ ih₂ =>
      -- one run is taken into the right operand, and then another at the level asked for
      obtain ⟨htree, hlast'⟩ := climb_cons hlevel left operand rest
      rw [hright] at ih₁ htree hlast'
      obtain ⟨run₁, hrest, hrun₁, hend₁, hoperand⟩ := ih₁
      obtain ⟨run₂, hlater', hrun₂, hend₂, hrun⟩ := ih₂
      dsimp only at hrest hend₁ hoperand htree hlast'
      refine ⟨(o, operand) :: (run₁ ++ run₂), ?_, ?_, hlast' ▸ hend₂, ?_⟩
      · rw [hlast', List.cons_append, List.append_assoc, ← hlater', ← hrest]
      · have hle := o.level_le_operandLevel
        intro p hp
        rcases List.mem_cons.1 hp with rfl | hp
        · exact Nat.le_of_not_lt hlevel
        · rcases List.mem_append.1 hp with hp | hp
          · have hp' := hrun₁ p hp
            omega
          · exact hrun₂ p hp
      · rw [hlater'] at hend₁
        rw [htree, hrun, hoperand]
        exact (splitTree_collapse left operand o hrun₁ run₂ hend₁.of_append).symm

/-- Climbing from the lowest level takes in all operations. -/
theorem climb_zero (first : Node) (rest : List Pair) :
    (climb 0 first rest).1 = splitTree first rest := by
  obtain ⟨run, hrest, -, hend, htree⟩ := climb_eq_splitTree 0 first rest
  -- no level is below the lowest
  have hnone : (climb 0 first rest).2.1 = [] := by
    apply List.head?_eq_none_iff.1
    apply Option.eq_none_iff_forall_not_mem.2
    intro p hp
    exact absurd (hend p hp) (Nat.not_lt_zero _)
  rw [hnone, List.append_nil] at hrest
  rw [htree, ← hrest]

end Spruce
