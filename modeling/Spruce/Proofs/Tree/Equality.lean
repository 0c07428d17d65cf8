import Mathlib.Data.List.Forall2
import Spruce.Proofs.RoundTrip.Equality
import Spruce.Tree.Traversal

set_option autoImplicit false

/-!
# What equality of trees says

Equal nodes are of one type and have equal fields, one by one (`Node.exists_of_equal`,
`equalAll_iff_forall₂`). A value that is a text or a member of a vocabulary, or a tuple of such, is
equal to itself only (`Value.IsExact`), and what is equal to a tuple of nodes is a tuple of equal
nodes (`Value.exists_nodes_of_equal`). Equal trees have the same number of nodes
(`Node.size_eq_of_equal`).

Main definition: `Value.IsExact`.
-/

namespace Spruce

/-! ## Fields -/

/-- Values are equal one by one. -/
theorem equalAll_iff_forall₂ {vs ws : List Value} :
    equalAll vs ws = true ↔ List.Forall₂ (fun v w => v.equal w = true) vs ws := by
  induction vs generalizing ws with
  | nil => cases ws <;> simp [equalAll]
  | cons v vs ih =>
      cases ws with
      | nil => simp [equalAll]
      | cons w ws => rw [equalAll, Bool.and_eq_true, ih, List.forall₂_cons]

/-- What equals a node is a node of the same type with equal fields. -/
theorem Node.exists_of_equal {type : NodeType} {span : Option Span} {fields : List Value}
    {n : Node} (h : Node.equal ⟨type, span, fields⟩ n = true) :
    ∃ span' fields', n = ⟨type, span', fields'⟩ ∧
      List.Forall₂ (fun v w => v.equal w = true) fields fields' := by
  obtain ⟨type', span', fields'⟩ := n
  rw [Node.equal, Bool.and_eq_true, decide_eq_true_eq] at h
  obtain ⟨rfl, hfields⟩ := h
  exact ⟨span', fields', rfl, equalAll_iff_forall₂.1 hfields⟩

/-! ## Values that equal themselves only -/

/-- A value that no other value equals. -/
def Value.IsExact (v : Value) : Prop := ∀ w, v.equal w = true → w = v

theorem Value.isExact_text (s : String) : (Value.text s).IsExact := by
  intro w h
  cases w with
  | text t => exact congrArg Value.text (of_decide_eq_true h).symm
  | _ => exact Bool.noConfusion h

theorem Value.isExact_absent : Value.absent.IsExact := by
  intro w h
  cases w with
  | absent => rfl
  | _ => exact Bool.noConfusion h

theorem Value.isExact_operator (o : Operator) : (Value.operator o).IsExact := by
  intro w h
  cases w with
  | operator o' => exact congrArg Value.operator (of_decide_eq_true h).symm
  | _ => exact Bool.noConfusion h

theorem Value.isExact_targetKind (k : TargetKind) : (Value.targetKind k).IsExact := by
  intro w h
  cases w with
  | targetKind k' => exact congrArg Value.targetKind (of_decide_eq_true h).symm
  | _ => exact Bool.noConfusion h

theorem Value.isExact_optionalText (s : Option String) : (Value.optionalText s).IsExact := by
  cases s with
  | none => exact isExact_absent
  | some s => exact isExact_text s

/-- What equals a tuple is a tuple of equal values. -/
theorem Value.exists_tuple_of_equal {vs : List Value} {w : Value}
    (h : (Value.tuple vs).equal w = true) :
    ∃ ws, w = .tuple ws ∧ List.Forall₂ (fun v w => v.equal w = true) vs ws := by
  cases w with
  | sequence kind ws =>
      rw [Value.tuple, Value.equal, Bool.and_eq_true, decide_eq_true_eq] at h
      obtain ⟨rfl, hitems⟩ := h
      exact ⟨ws, rfl, equalAll_iff_forall₂.1 hitems⟩
  | _ => exact Bool.noConfusion h

theorem Value.isExact_tuple {vs : List Value} (h : ∀ v ∈ vs, v.IsExact) :
    (Value.tuple vs).IsExact := by
  intro w hw
  obtain ⟨ws, rfl, hitems⟩ := exists_tuple_of_equal hw
  clear hw
  refine congrArg Value.tuple ?_
  induction hitems with
  | nil => rfl
  | cons hfirst _ ih =>
      obtain ⟨hv, hvs⟩ := List.forall_mem_cons.1 h
      rw [hv _ hfirst, ih hvs]

theorem Value.isExact_names (ss : List String) : (Value.names ss).IsExact :=
  isExact_tuple (List.forall_mem_map.2 fun s _ => isExact_text s)

theorem Value.isExact_operators (os : List Operator) : (Value.operators os).IsExact :=
  isExact_tuple (List.forall_mem_map.2 fun o _ => isExact_operator o)

/-! ## Nodes -/

theorem Value.exists_node_of_equal {n : Node} {w : Value} (h : (Value.node n).equal w = true) :
    ∃ m, w = .node m ∧ n.equal m = true := by
  cases w with
  | node m => exact ⟨m, rfl, h⟩
  | _ => exact Bool.noConfusion h

/-- What equals a tuple of nodes is a tuple of equal nodes. -/
theorem Value.exists_nodes_of_equal {ns : List Node} {w : Value}
    (h : (Value.nodes ns).equal w = true) :
    ∃ ms, w = .nodes ms ∧ List.Forall₂ (fun n m => n.equal m = true) ns ms := by
  obtain ⟨ws, rfl, hitems⟩ := exists_tuple_of_equal h
  clear h
  induction ns generalizing ws with
  | nil =>
      cases hitems
      exact ⟨[], rfl, .nil⟩
  | cons n ns ih =>
      obtain ⟨w, ws', hw, hws, rfl⟩ := List.forall₂_cons_left_iff.1 hitems
      obtain ⟨m, rfl, hm⟩ := exists_node_of_equal hw
      obtain ⟨ms, hms, hall⟩ := ih ws' hws
      exact ⟨m :: ms, congrArg (fun v => Value.tuple (.node m :: v.elements)) hms, .cons hm hall⟩

/-- Tuples of nodes are equal if their nodes are, one by one. -/
theorem Value.equal_nodes_iff {ns ms : List Node} :
    (Value.nodes ns).equal (.nodes ms) = true ↔
      List.Forall₂ (fun n m => n.equal m = true) ns ms := by
  have hkind : (Value.nodes ns).equal (.nodes ms) = true ↔
      equalAll (ns.map .node) (ms.map .node) = true := by
    simp [Value.nodes, Value.tuple, Value.equal]
  rw [hkind, equalAll_iff_forall₂, List.forall₂_map_left_iff, List.forall₂_map_right_iff]
  rfl

theorem Value.exists_optionalNode_of_equal {n : Option Node} {w : Value}
    (h : (Value.optionalNode n).equal w = true) :
    ∃ m, w = .optionalNode m ∧ Option.Rel (fun n m => n.equal m = true) n m := by
  cases n with
  | none =>
      obtain rfl := isExact_absent w h
      exact ⟨none, rfl, .none⟩
  | some n =>
      obtain ⟨m, rfl, hm⟩ := exists_node_of_equal h
      exact ⟨some m, rfl, .some hm⟩

/-! ## Size -/

mutual

/-- Equal trees have the same number of nodes. -/
theorem Node.size_eq_of_equal : (n m : Node) → n.equal m = true → n.size = m.size
  | ⟨type, _, fields⟩, ⟨type', _, fields'⟩, h => by
      rw [Node.equal, Bool.and_eq_true] at h
      rw [Node.size, Node.size, sizeAll_eq_of_equal fields fields' h.2]
termination_by structural n => n

theorem Value.size_eq_of_equal : (v w : Value) → v.equal w = true → v.size = w.size
  | .sequence kind items, w, h => by
      cases w with
      | sequence kind' items' =>
          rw [Value.equal, Bool.and_eq_true] at h
          exact sizeAll_eq_of_equal items items' h.2
      | _ => exact Bool.noConfusion h
  | .node n, w, h => by
      cases w with
      | node m => exact n.size_eq_of_equal m h
      | _ => exact Bool.noConfusion h
  | .absent, w, h | .truth _, w, h | .whole _, w, h | .real _, w, h | .text _, w, h
  | .operator _, w, h | .operation _, w, h | .targetKind _, w, h | .fragment _ _, w, h => by
      -- what equals such a value is no node or sequence either
      cases w <;>
        first
        | rfl
        | exact absurd h (by simp [Value.equal, Value.equalNumber, Value.wholeNumber?])
termination_by structural v => v

theorem sizeAll_eq_of_equal : (vs ws : List Value) → equalAll vs ws = true →
    sizeAll vs = sizeAll ws
  | [], ws, h => by
      cases ws with
      | nil => rfl
      | cons w ws => exact Bool.noConfusion h
  | v :: vs, ws, h => by
      cases ws with
      | nil => exact Bool.noConfusion h
      | cons w ws =>
          rw [equalAll, Bool.and_eq_true] at h
          rw [sizeAll, sizeAll, v.size_eq_of_equal w h.1, sizeAll_eq_of_equal vs ws h.2]
termination_by structural vs => vs

end

end Spruce
