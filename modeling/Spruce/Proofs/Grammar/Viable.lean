import Mathlib.Data.List.Induction
import Spruce.Grammar.Reading
import Spruce.Proofs.Grammar.Productive

set_option autoImplicit false

/-!
# Viable beginnings

The readings of some tokens are exactly the pending derivations that have those tokens and wait
for the next (`Pending.mem_after`, `tokens_of_mem_after`). As every pending derivation can be
finished, there are readings just when the tokens begin some derived sequence (`after_ne_nil_iff`),
and the awaited terminals are just those that can come next (`mem_awaited_after_iff`). A derivation
has been read completely just when the tokens are those of one (`derivation?_after_isSome`,
`tokens_of_derivation?_after`).
-/

namespace Spruce

variable {goal : Symbol}

/-! ## Derivations from left to right -/

mutual

/-- A pending derivation after the next symbol has been derived. -/
def Pending.take {later : List Symbol} :
    {s : Symbol} → Pending goal (s :: later) → Derivation s → Pending goal later
  | _, p, .token _ token kind_eq => p.shift token kind_eq
  | _, p, .node rule parts => (p.follow rule).takeAll parts

/-- A pending derivation after the next symbols have been derived. -/
def Pending.takeAll {later : List Symbol} :
    {ss : List Symbol} → Pending goal (ss ++ later) → Derivations ss → Pending goal later
  | _, p, .nil => p
  | _, p, .cons first rest => (p.take first).takeAll rest

end

mutual

theorem Pending.take_tokens {later : List Symbol} : {s : Symbol} →
    (p : Pending goal (s :: later)) → (d : Derivation s) →
      (p.take d).tokens = p.tokens ++ d.tokens
  | _, p, .token _ token kind_eq => by
      simp [Pending.take, Pending.tokens, Derivation.tokens]
  | _, p, .node rule parts => by
      rw [Pending.take, (p.follow rule).takeAll_tokens parts, Pending.tokens, Derivation.tokens]

theorem Pending.takeAll_tokens {later : List Symbol} : {ss : List Symbol} →
    (p : Pending goal (ss ++ later)) → (ds : Derivations ss) →
      (p.takeAll ds).tokens = p.tokens ++ ds.tokens
  | _, p, .nil => by simp [Pending.takeAll, Derivations.tokens]
  | _, p, .cons first rest => by
      rw [Pending.takeAll, (p.take first).takeAll_tokens rest, p.take_tokens first,
        Derivations.tokens, List.append_assoc]

end

/-- Before a token of a pending derivation was read, a token of its kind was awaited. -/
theorem Pending.exists_before {later : List Symbol} (p : Pending goal later) {ts more : List Token}
    {token : Token} (h : p.tokens = ts ++ token :: more) :
    ∃ (later' : List Symbol) (q : Pending goal (.tok token.kind :: later')), q.tokens = ts := by
  induction p generalizing more with
  | start => simp [Pending.tokens] at h
  | follow before rule ih => exact ih h
  | @shift t later before last kind_eq ih =>
      rw [Pending.tokens] at h
      -- the token is the last that was read, or it was read earlier
      rcases List.eq_nil_or_concat more with rfl | ⟨more', last', rfl⟩
      · obtain ⟨hts, hlast⟩ := List.append_inj' h rfl
        obtain rfl : last = token := by simpa using hlast
        subst kind_eq
        exact ⟨later, before, hts⟩
      · rw [List.concat_eq_append, ← List.cons_append, ← List.append_assoc] at h
        exact ih (List.append_inj' h rfl).1

/-! ## Readings of tokens -/

/-- The tokens that a reading has read. -/
def Reading.tokens : Reading goal → List Token
  | .complete p => p.tokens
  | .awaiting _ _ p => p.tokens

/-- The readings after some tokens. -/
def Readings.after (readings : Readings goal) (tokens : List Token) : Readings goal :=
  tokens.foldl Readings.next readings

theorem Readings.after_concat (readings : Readings goal) (tokens : List Token) (token : Token) :
    readings.after (tokens ++ [token]) = (readings.after tokens).next token := by
  simp [after]

/-- Following rules reads no token. -/
theorem Pending.tokens_of_mem_readings {later : List Symbol} (p : Pending goal later)
    {r : Reading goal} (hr : r ∈ p.readings later) : r.tokens = p.tokens := by
  induction later, p using Pending.readings.induct with
  | case1 p =>
      simp only [Pending.readings, List.mem_singleton] at hr
      rw [hr, Reading.tokens]
  | case2 t later p =>
      simp only [Pending.readings, List.mem_singleton] at hr
      rw [hr, Reading.tokens]
  | case3 x later p ih =>
      rw [Pending.readings, List.mem_flatMap] at hr
      obtain ⟨rule, -, hr⟩ := hr
      rw [ih rule hr, Pending.tokens]

/-- Following rules leads somewhere. -/
theorem Pending.readings_ne_nil {later : List Symbol} (p : Pending goal later) :
    p.readings later ≠ [] := by
  induction later, p using Pending.readings.induct with
  | case1 p => simp [Pending.readings]
  | case2 t later p => simp [Pending.readings]
  | case3 x later p ih =>
      intro h
      rw [Pending.readings, List.flatMap_eq_nil_iff] at h
      exact ih x.simplestRule (h x.simplestRule x.simplestRule.mem_rules)

/-- Every pending derivation is among the readings of its tokens. -/
theorem Pending.mem_after {later : List Symbol} (p : Pending goal later) {r : Reading goal}
    (hr : r ∈ p.readings later) : r ∈ (Readings.initial goal).after p.tokens := by
  induction p generalizing r with
  | start => exact hr
  -- a reading of what a rule leads to is a reading of what the rule was followed from
  | follow before rule ih =>
      refine ih ?_
      rw [Pending.readings, List.mem_flatMap]
      exact ⟨rule, rule.mem_rules, hr⟩
  | @shift t later before token kind_eq ih =>
      have hbefore : Reading.awaiting t later before ∈ before.readings (.tok t :: later) := by
        simp [Pending.readings]
      rw [Pending.tokens, Readings.after_concat]
      refine List.mem_flatMap.2 ⟨_, ih hbefore, ?_⟩
      rw [Reading.next, dif_pos kind_eq]
      exact hr

/-- The readings of some tokens have read those tokens. -/
theorem Readings.tokens_of_mem_after {ts : List Token} {r : Reading goal}
    (hr : r ∈ (initial goal).after ts) : r.tokens = ts := by
  induction ts using List.reverseRecOn generalizing r with
  | nil => exact Pending.start.tokens_of_mem_readings hr
  | append_singleton ts token ih =>
      rw [after_concat] at hr
      obtain ⟨before, hbefore, hr⟩ := List.mem_flatMap.1 hr
      cases before with
      | complete p => simp [Reading.next] at hr
      | awaiting t later p =>
          rw [Reading.next] at hr
          split at hr
          · next kind_eq =>
              rw [(p.shift token kind_eq).tokens_of_mem_readings hr, Pending.tokens]
              exact congrArg (· ++ [token]) (ih hbefore)
          · exact absurd hr List.not_mem_nil

/-! ## What the readings tell -/

/-- The tokens of a derivation up to any place are those of a pending derivation. -/
theorem Derivation.exists_pending (d : Derivation goal) {ts : List Token} (h : ts <+: d.tokens) :
    ∃ (later : List Symbol) (p : Pending goal later), p.tokens = ts := by
  have hread : (Pending.start.take d).tokens = d.tokens := by
    rw [Pending.take_tokens, Pending.tokens, List.nil_append]
  obtain ⟨more, hmore⟩ := h
  cases more with
  | nil => exact ⟨[], Pending.start.take d, by rw [hread, ← hmore, List.append_nil]⟩
  | cons token more =>
      obtain ⟨later, p, hp⟩ := (Pending.start.take d).exists_before (hread.trans hmore.symm)
      exact ⟨_, p, hp⟩

/-- Whatever has been decided can be finished. -/
theorem Pending.exists_derivation {later : List Symbol} (p : Pending goal later) :
    ∃ d : Derivation goal, p.tokens <+: d.tokens := by
  obtain ⟨ds⟩ := Derivations.nonempty later
  exact ⟨p.finish ds, by rw [p.finish_tokens]; exact List.prefix_append _ _⟩

namespace Readings

/-- There are readings of some tokens just when a derived sequence begins with them. -/
theorem after_ne_nil_iff {ts : List Token} :
    (initial goal).after ts ≠ [] ↔ ∃ d : Derivation goal, ts <+: d.tokens := by
  constructor
  · intro h
    obtain ⟨r, hr⟩ := List.exists_mem_of_ne_nil _ h
    obtain rfl := tokens_of_mem_after hr
    cases r with
    | complete p => exact p.exists_derivation
    | awaiting t later p => exact p.exists_derivation
  · rintro ⟨d, hd⟩
    obtain ⟨later, p, rfl⟩ := d.exists_pending hd
    obtain ⟨r, hr⟩ := List.exists_mem_of_ne_nil _ p.readings_ne_nil
    exact List.ne_nil_of_mem (p.mem_after hr)

/-- A terminal is awaited just when a derived sequence goes on with it. -/
theorem mem_awaited_after_iff {ts : List Token} {t : Terminal} :
    t ∈ ((initial goal).after ts).awaited ↔
      ∃ (token : Token) (d : Derivation goal), token.kind = t ∧ ts ++ [token] <+: d.tokens := by
  simp only [awaited, List.mem_filter, List.any_eq_true]
  constructor
  · rintro ⟨-, r, hr, hawaits⟩
    obtain rfl := tokens_of_mem_after hr
    cases r with
    | complete p => simp [Reading.awaits] at hawaits
    | awaiting t' later p =>
        obtain rfl : t' = t := by simpa [Reading.awaits] using hawaits
        -- any token of the awaited kind will do
        obtain ⟨d, hd⟩ := (p.shift ⟨t', [], .origin, 0⟩ rfl).exists_derivation
        exact ⟨_, d, rfl, hd⟩
  · rintro ⟨token, d, rfl, more, hmore⟩
    have hread : (Pending.start.take d).tokens = ts ++ token :: more := by
      rw [Pending.take_tokens, Pending.tokens, List.nil_append, ← hmore, List.append_assoc,
        List.singleton_append]
    obtain ⟨later, p, rfl⟩ := (Pending.start.take d).exists_before hread
    refine ⟨Terminal.mem_all _, .awaiting token.kind later p, p.mem_after ?_, ?_⟩
    · simp [Pending.readings]
    · simp [Reading.awaits]

/-- A derivation that has been read has the tokens that were read. -/
theorem tokens_of_derivation?_after {ts : List Token} {d : Derivation goal}
    (h : ((initial goal).after ts).derivation? = some d) : d.tokens = ts := by
  obtain ⟨r, hr, hd⟩ := List.exists_of_findSome?_eq_some h
  obtain rfl := tokens_of_mem_after hr
  cases r with
  | complete p =>
      obtain rfl : p.finish .nil = d := by simpa [Reading.derivation?] using hd
      rw [p.finish_tokens, Derivations.tokens, List.append_nil, Reading.tokens]
  | awaiting t later p => simp [Reading.derivation?] at hd

/-- Tokens that have a derivation are read completely. -/
theorem derivation?_after_isSome (d : Derivation goal) :
    ((initial goal).after d.tokens).derivation?.isSome := by
  have hread : (Pending.start.take d).tokens = d.tokens := by
    rw [Pending.take_tokens, Pending.tokens, List.nil_append]
  have hmem : Reading.complete (Pending.start.take d) ∈ (initial goal).after d.tokens := by
    rw [← hread]
    exact (Pending.start.take d).mem_after (by simp [Pending.readings])
  rw [derivation?, List.findSome?_isSome_iff]
  exact ⟨_, hmem, rfl⟩

/-! ## Feeding tokens -/

/-- Feeding comes to an end with the readings of all the tokens. -/
theorem after_of_feed {readings readings' : Readings goal} {ts : List Token}
    (hne : readings ≠ []) (h : readings.feed ts = .ok readings') :
    readings' = readings.after ts ∧ readings' ≠ [] := by
  induction ts generalizing readings with
  | nil =>
      obtain rfl : readings = readings' := by simpa [feed] using h
      exact ⟨rfl, hne⟩
  | cons token ts ih =>
      rw [feed] at h
      split at h
      · simp at h
      · next hnext => exact ih hnext h

/-- Feeding stops at the first token that no reading goes on with. -/
theorem obstacle_of_feed {readings : Readings goal} {ts : List Token} {o : Obstacle}
    (hne : readings ≠ []) (h : readings.feed ts = .error o) :
    ∃ before later : List Token, ts = before ++ o.token :: later ∧ readings.after before ≠ [] ∧
      readings.after (before ++ [o.token]) = [] ∧ o.expected = (readings.after before).awaited := by
  induction ts generalizing readings with
  | nil => simp [feed] at h
  | cons token ts ih =>
      rw [feed] at h
      split at h
      · next hnext =>
          obtain rfl : (⟨token, readings.awaited⟩ : Obstacle) = o := by simpa using h
          exact ⟨[], ts, rfl, hne, hnext, rfl⟩
      · next hnext =>
          obtain ⟨before, later, rfl, hbefore, hstop, hexpected⟩ := ih hnext h
          exact ⟨token :: before, later, rfl, hbefore, hstop, hexpected⟩

theorem initial_ne_nil : initial goal ≠ [] := Pending.start.readings_ne_nil

end Readings

end Spruce
