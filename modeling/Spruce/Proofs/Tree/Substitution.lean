import Spruce.Diagnostic.Fault
import Spruce.Diagnostic.Warning
import Spruce.Tree.Rebuild

set_option autoImplicit false

/-!
# Substitution in trees

Rebuilding a tree is substitution: the outermost nodes that have a replacement give way to it, and
all else stays as it is (`Answers.rebuildM_outcome`). That holds of rebuilding with replacements
that may fail as long as none of those asked for does. A tree in which nothing is replaced is not
even copied (`Answers.rebuildM_same`).

Main definition: `Node.substitute`.
-/

namespace Spruce

mutual

/-- What stands in the place of a node once the outermost nodes that `f` replaces are replaced. -/
def Node.substitute (f : Node → Option Replacement) : Node → Value
  | ⟨type, span, fields⟩ =>
      match f ⟨type, span, fields⟩ with
      | some r => (Rebuilt.settle ⟨type, span, fields⟩ r).value
      | none => .node ⟨type, span, substituteFields f fields⟩
termination_by structural n => n

/-- What stands in the place of the contents of a field. -/
def Value.substituteField (f : Node → Option Replacement) : Value → Value
  | .node n => n.substitute f
  | .sequence .tuple items => .tuple (substituteElements f items)
  | v => v
termination_by structural v => v

/-- What stands in the place of the contents of some fields. -/
def substituteFields (f : Node → Option Replacement) : List Value → List Value
  | [] => []
  | v :: vs => v.substituteField f :: substituteFields f vs
termination_by structural vs => vs

/-- What stands in the place of an element of a tuple. -/
def Value.substituteElement (f : Node → Option Replacement) : Value → Value
  | .node n => n.substitute f
  | v => v
termination_by structural v => v

/-- What stands in the place of the elements of a tuple. -/
def substituteElements (f : Node → Option Replacement) : List Value → List Value
  | [] => []
  | v :: vs => v.substituteElement f :: substituteElements f vs
termination_by structural vs => vs

end

theorem substitute_of_some {f : Node → Option Replacement} {n : Node} {r : Replacement}
    (h : f n = some r) : n.substitute f = (Rebuilt.settle n r).value := by
  obtain ⟨type, span, fields⟩ := n
  rw [Node.substitute, h]

theorem substitute_of_none {f : Node → Option Replacement} {n : Node} (h : f n = none) :
    n.substitute f = .node ⟨n.type, n.span, substituteFields f n.fields⟩ := by
  obtain ⟨type, span, fields⟩ := n
  rw [Node.substitute, h]

/-! ## Rebuilding as substitution -/

/-- Rebuilding `v` came out as `w`, which is `v` itself where it is said to be kept. -/
def RebuiltAs (v w : Value) (outcome : Except Fault Rebuilt) : Prop :=
  ∃ r, outcome = .ok r ∧ r.value = w ∧ (r.sharing.isKept = true → w = v)

/-- The same of values one after another. -/
def AllRebuiltAs (vs ws : List Value) (outcome : Except Fault (List Rebuilt)) : Prop :=
  ∃ rs, outcome = .ok rs ∧ rs.map Rebuilt.value = ws ∧
    ((rs.all fun r => r.sharing.isKept) = true → ws = vs)

theorem rebuiltAs_same (v : Value) : RebuiltAs v v (.ok (Rebuilt.same v)) :=
  ⟨_, rfl, rfl, fun _ => rfl⟩

theorem rebuiltAs_settle (n : Node) (r : Replacement) :
    RebuiltAs (.node n) (Rebuilt.settle n r).value (.ok (Rebuilt.settle n r)) := by
  refine ⟨_, rfl, rfl, fun hkept => ?_⟩
  cases r with
  | keep => rfl
  | existing v => exact Bool.noConfusion hkept
  | fresh v => exact Bool.noConfusion hkept

theorem allRebuiltAs_nil : AllRebuiltAs [] [] (.ok []) :=
  ⟨_, rfl, rfl, fun _ => rfl⟩

/-- A value is put together again from its rebuilt parts. -/
theorem AllRebuiltAs.assemble {vs ws : List Value} {x : Diagnosed Fault (List Rebuilt)}
    (h : AllRebuiltAs vs ws x.outcome) (refill : List Value → Value) :
    RebuiltAs (refill vs) (refill ws)
      (x >>= fun parts => pure (Rebuilt.assemble (refill vs) refill parts)).outcome := by
  obtain ⟨rs, hrs, rfl, hkept⟩ := h
  rw [Diagnosed.outcome_bind hrs]
  refine ⟨_, rfl, ?_, ?_⟩
  · rw [Rebuilt.assemble]
    split
    · next hall =>
        rw [hkept hall]
        rfl
    · rfl
  · rw [Rebuilt.assemble]
    split
    · next hall => exact fun _ => congrArg refill (hkept hall)
    · exact fun hkept => Bool.noConfusion hkept

/-- A value is rebuilt, and then those after it. -/
theorem RebuiltAs.cons {v w : Value} {vs ws : List Value} {x : Diagnosed Fault Rebuilt}
    {xs : Diagnosed Fault (List Rebuilt)} (h : RebuiltAs v w x.outcome)
    (hs : AllRebuiltAs vs ws xs.outcome) :
    AllRebuiltAs (v :: vs) (w :: ws)
      (x >>= fun part => xs >>= fun parts => pure (part :: parts)).outcome := by
  obtain ⟨r, hr, rfl, hkept⟩ := h
  obtain ⟨rs, hrs, rfl, hskept⟩ := hs
  rw [Diagnosed.outcome_bind hr, Diagnosed.outcome_bind hrs]
  refine ⟨_, rfl, rfl, fun hall => ?_⟩
  rw [List.all_cons, Bool.and_eq_true] at hall
  rw [hkept hall.1, hskept hall.2]

/-- What `replacement` answers for the nodes of which `P` holds, which with each that is not
replaced holds of those below it. -/
structure Answers (replacement : Node → Diagnosed Fault (Option Replacement))
    (f : Node → Option Replacement) (P : Node → Prop) : Prop where
  outcome_eq : ∀ n, P n → (replacement n).outcome = .ok (f n)
  below : ∀ n, P n → f n = none → ∀ v ∈ n.fields, ∀ c, .node c ∈ v.directNodes → P c

section

variable {replacement : Node → Diagnosed Fault (Option Replacement)}
  {f : Node → Option Replacement} {P : Node → Prop}

mutual

/-- Rebuilding a tree is substitution if none of the replacements asked for fails. -/
theorem Answers.rebuildM_outcome (h : Answers replacement f P) : (n : Node) → P n →
    RebuiltAs (.node n) (n.substitute f) (n.rebuildM replacement).outcome
  | ⟨type, span, fields⟩, hn => by
      rw [Node.rebuildM, Diagnosed.outcome_bind (h.outcome_eq _ hn), Node.substitute]
      cases hf : f ⟨type, span, fields⟩ with
      | some r => exact rebuiltAs_settle _ r
      | none =>
          have hparts := h.rebuildFieldsM_outcome fields (h.below _ hn hf)
          exact hparts.assemble fun vs => .node ⟨type, span, vs⟩
termination_by structural n => n

theorem Answers.rebuildFieldM_outcome (h : Answers replacement f P) : (v : Value) →
    (∀ c, .node c ∈ v.directNodes → P c) →
      RebuiltAs v (v.substituteField f) (v.rebuildFieldM replacement).outcome
  | .node n, hv => h.rebuildM_outcome n (hv n List.mem_cons_self)
  | .sequence .tuple items, hv => by
      have helements := h.rebuildElementsM_outcome items fun c hc =>
        hv c (List.mem_filter.2 ⟨hc, rfl⟩)
      rw [Value.rebuildFieldM, Value.substituteField]
      exact helements.assemble .tuple
  | .sequence .list _, _ | .absent, _ | .truth _, _ | .whole _, _ | .real _, _ | .text _, _
  | .operator _, _ | .operation _, _ | .targetKind _, _ | .fragment _ _, _ => rebuiltAs_same _
termination_by structural v => v

theorem Answers.rebuildFieldsM_outcome (h : Answers replacement f P) : (vs : List Value) →
    (∀ v ∈ vs, ∀ c, .node c ∈ v.directNodes → P c) →
      AllRebuiltAs vs (substituteFields f vs) (rebuildFieldsM replacement vs).outcome
  | [], _ => allRebuiltAs_nil
  | v :: vs, hvs => by
      have hfirst := h.rebuildFieldM_outcome v (hvs v List.mem_cons_self)
      have hlater := h.rebuildFieldsM_outcome vs fun w hw => hvs w (List.mem_cons_of_mem v hw)
      rw [rebuildFieldsM, substituteFields]
      exact hfirst.cons hlater
termination_by structural vs => vs

theorem Answers.rebuildElementM_outcome (h : Answers replacement f P) : (v : Value) →
    (∀ c, v = .node c → P c) →
      RebuiltAs v (v.substituteElement f) (v.rebuildElementM replacement).outcome
  | .node n, hv => h.rebuildM_outcome n (hv n rfl)
  | .sequence _ _, _ | .absent, _ | .truth _, _ | .whole _, _ | .real _, _ | .text _, _
  | .operator _, _ | .operation _, _ | .targetKind _, _ | .fragment _ _, _ => rebuiltAs_same _
termination_by structural v => v

theorem Answers.rebuildElementsM_outcome (h : Answers replacement f P) : (vs : List Value) →
    (∀ c, .node c ∈ vs → P c) →
      AllRebuiltAs vs (substituteElements f vs) (rebuildElementsM replacement vs).outcome
  | [], _ => allRebuiltAs_nil
  | v :: vs, hvs => by
      have hfirst := h.rebuildElementM_outcome v fun c hc => hvs c (hc ▸ List.mem_cons_self)
      have hlater := h.rebuildElementsM_outcome vs fun c hc => hvs c (List.mem_cons_of_mem v hc)
      rw [rebuildElementsM, substituteElements]
      exact hfirst.cons hlater
termination_by structural vs => vs

end

end

/-! ## Rebuilding where nothing is replaced -/

/-- A value all of whose parts are as they were is no copy. -/
theorem Rebuilt.assemble_same (refill : List Value → Value) (vs : List Value) :
    assemble (refill vs) refill (vs.map same) = same (refill vs) := by
  rw [assemble, if_pos]
  rw [List.all_map, List.all_eq_true]
  intro v _
  rfl

section

variable {replacement : Node → Diagnosed Fault (Option Replacement)} {P : Node → Prop}

mutual

/-- A tree in which no node is replaced is left as it is. -/
theorem Answers.rebuildM_same (h : Answers replacement (fun _ => none) P) : (n : Node) → P n →
    (n.rebuildM replacement).outcome = .ok (Rebuilt.same (.node n))
  | ⟨type, span, fields⟩, hn => by
      have hparts := h.rebuildFieldsM_same fields (h.below _ hn rfl)
      rw [Node.rebuildM, Diagnosed.outcome_bind (h.outcome_eq _ hn)]
      show (_ >>= _ : Diagnosed Fault Rebuilt).outcome = _
      rw [Diagnosed.outcome_bind hparts]
      exact congrArg Except.ok (Rebuilt.assemble_same (fun vs => .node ⟨type, span, vs⟩) fields)
termination_by structural n => n

theorem Answers.rebuildFieldM_same (h : Answers replacement (fun _ => none) P) : (v : Value) →
    (∀ c, .node c ∈ v.directNodes → P c) →
      (v.rebuildFieldM replacement).outcome = .ok (Rebuilt.same v)
  | .node n, hv => h.rebuildM_same n (hv n List.mem_cons_self)
  | .sequence .tuple items, hv => by
      have hparts := h.rebuildElementsM_same items fun c hc =>
        hv c (List.mem_filter.2 ⟨hc, rfl⟩)
      rw [Value.rebuildFieldM, Diagnosed.outcome_bind hparts]
      exact congrArg Except.ok (Rebuilt.assemble_same .tuple items)
  | .sequence .list _, _ | .absent, _ | .truth _, _ | .whole _, _ | .real _, _ | .text _, _
  | .operator _, _ | .operation _, _ | .targetKind _, _ | .fragment _ _, _ => rfl
termination_by structural v => v

theorem Answers.rebuildFieldsM_same (h : Answers replacement (fun _ => none) P) :
    (vs : List Value) → (∀ v ∈ vs, ∀ c, .node c ∈ v.directNodes → P c) →
      (rebuildFieldsM replacement vs).outcome = .ok (vs.map Rebuilt.same)
  | [], _ => rfl
  | v :: vs, hvs => by
      have hfirst := h.rebuildFieldM_same v (hvs v List.mem_cons_self)
      have hlater := h.rebuildFieldsM_same vs fun w hw => hvs w (List.mem_cons_of_mem v hw)
      rw [rebuildFieldsM, Diagnosed.outcome_bind hfirst, Diagnosed.outcome_bind hlater]
      rfl
termination_by structural vs => vs

theorem Answers.rebuildElementM_same (h : Answers replacement (fun _ => none) P) : (v : Value) →
    (∀ c, v = .node c → P c) → (v.rebuildElementM replacement).outcome = .ok (Rebuilt.same v)
  | .node n, hv => h.rebuildM_same n (hv n rfl)
  | .sequence _ _, _ | .absent, _ | .truth _, _ | .whole _, _ | .real _, _ | .text _, _
  | .operator _, _ | .operation _, _ | .targetKind _, _ | .fragment _ _, _ => rfl
termination_by structural v => v

theorem Answers.rebuildElementsM_same (h : Answers replacement (fun _ => none) P) :
    (vs : List Value) → (∀ c, .node c ∈ vs → P c) →
      (rebuildElementsM replacement vs).outcome = .ok (vs.map Rebuilt.same)
  | [], _ => rfl
  | v :: vs, hvs => by
      have hfirst := h.rebuildElementM_same v fun c hc => hvs c (hc ▸ List.mem_cons_self)
      have hlater := h.rebuildElementsM_same vs fun c hc => hvs c (List.mem_cons_of_mem v hc)
      rw [rebuildElementsM, Diagnosed.outcome_bind hfirst, Diagnosed.outcome_bind hlater]
      rfl
termination_by structural vs => vs

end

end

end Spruce
