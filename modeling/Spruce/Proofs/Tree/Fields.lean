import Mathlib.Data.List.Forall2
import Spruce.Proofs.Tree.Substitution

set_option autoImplicit false

/-!
# Nodes whose fields fit their type

A node is fitted if each of its fields holds what fields of its role are for. Its children are then
the nodes in its fields, in order (`Node.IsFitted.children_eq`), and substitution in it is
substitution in its children (`Node.IsFitted.children_substitute`).

Main definitions: `FieldRole.Fits` and `Node.IsFitted`.
-/

namespace Spruce

/-! ## Fields -/

/-- Contents that fit the role of a field: no nodes in a label, one node for a child, and a tuple of
nodes for several. -/
def FieldRole.Fits (v : Value) : FieldRole → Prop
  | label => v.directNodes = []
  | child => ∃ n, v = .node n
  | optionalChild => ∃ n, v = .optionalNode n
  | children => ∃ ns, v = .nodes ns
  | anything => True

/-- A node each field of which holds what it is for. -/
def Node.IsFitted (n : Node) : Prop :=
  List.Forall₂ (fun shape v => shape.role.Fits v) n.type.fields n.fields

theorem directNodes_nodes (ns : List Node) : (Value.nodes ns).directNodes = ns.map .node :=
  List.filter_eq_self.2 fun v hv => by
    obtain ⟨n, -, rfl⟩ := List.mem_map.1 hv
    rfl

theorem directNodes_names (ss : List String) : (Value.names ss).directNodes = [] :=
  List.filter_eq_nil_iff.2 fun v hv => by
    obtain ⟨s, -, rfl⟩ := List.mem_map.1 hv
    exact Bool.false_ne_true

theorem directNodes_operators (os : List Operator) : (Value.operators os).directNodes = [] :=
  List.filter_eq_nil_iff.2 fun v hv => by
    obtain ⟨o, -, rfl⟩ := List.mem_map.1 hv
    exact Bool.false_ne_true

theorem directNodes_optionalText (s : Option String) : (Value.optionalText s).directNodes = [] := by
  cases s <;> rfl

theorem FieldRole.Fits.childrenIn_eq {role : FieldRole} {v : Value} (h : role.Fits v) :
    role.childrenIn v = v.directNodes := by
  cases role with
  | label => exact h.symm
  | child =>
      obtain ⟨n, rfl⟩ := h
      rfl
  | optionalChild =>
      obtain ⟨n, rfl⟩ := h
      cases n <;> rfl
  | children =>
      obtain ⟨ns, rfl⟩ := h
      exact (directNodes_nodes ns).symm
  | anything => rfl

theorem FieldRole.Fits.check_eq {role : FieldRole} {v : Value} (h : role.Fits v) :
    role.check v = .ok () := by
  cases role with
  | children =>
      obtain ⟨ns, rfl⟩ := h
      rfl
  | _ => rfl

/-- The children of a fitted node are the nodes in its fields. -/
theorem Node.IsFitted.children_eq {n : Node} (h : n.IsFitted) :
    n.children = n.fields.flatMap Value.directNodes := by
  rw [Node.IsFitted] at h
  rw [Node.children]
  generalize n.type.fields = shapes, n.fields = fields at h
  induction h with
  | nil => rfl
  | cons hfirst _ ih =>
      rw [List.zip_cons_cons, List.flatMap_cons, List.flatMap_cons, ih, hfirst.childrenIn_eq]

/-- Nothing is wrong in the fields of a fitted node. -/
theorem Node.IsFitted.checkFields_eq {n : Node} (h : n.IsFitted) : n.checkFields = .ok () :=
  forM_eq_ok_iff.2 fun _ hf => (List.forall₂_zip h hf).check_eq

/-- The children of a fitted node are nodes. -/
theorem Node.IsFitted.exists_children {n : Node} (h : n.IsFitted) :
    ∃ ns : List Node, n.children = ns.map .node := by
  have hnodes : ∀ vs : List Value, (∀ v ∈ vs, v.node?.isSome = true) →
      ∃ ns : List Node, vs = ns.map .node := by
    intro vs hvs
    induction vs with
    | nil => exact ⟨[], rfl⟩
    | cons v vs ih =>
        obtain ⟨hv, hvs⟩ := List.forall_mem_cons.1 hvs
        obtain ⟨ns, rfl⟩ := ih hvs
        cases v with
        | node n => exact ⟨n :: ns, rfl⟩
        | _ => exact Bool.noConfusion hv
  apply hnodes
  intro v hv
  rw [h.children_eq] at hv
  obtain ⟨w, -, hv⟩ := List.mem_flatMap.1 hv
  cases w with
  | node n =>
      obtain rfl := List.mem_singleton.1 hv
      rfl
  | sequence kind items =>
      cases kind with
      | tuple => exact (List.mem_filter.1 hv).2
      | list => exact absurd hv List.not_mem_nil
  | _ => exact absurd hv List.not_mem_nil

/-! ## What holds of the nodes in fields -/

/-- Contents that fit the role of a field, with `P` for the nodes in them. -/
def FieldRole.Holds (P : Node → Prop) (role : FieldRole) (v : Value) : Prop :=
  role.Fits v ∧ ∀ c, .node c ∈ v.directNodes → P c

/-- A fitted node with `P` for its children. -/
def Node.Holds (P : Node → Prop) (n : Node) : Prop :=
  List.Forall₂ (fun shape v => shape.role.Holds P v) n.type.fields n.fields

section

variable {P : Node → Prop}

theorem holds_label {v : Value} (h : v.directNodes = []) : FieldRole.label.Holds P v :=
  ⟨h, fun _ hc => absurd (h ▸ hc) List.not_mem_nil⟩

theorem holds_child {n : Node} (h : P n) : FieldRole.child.Holds P (.node n) := by
  refine ⟨⟨n, rfl⟩, fun c hc => ?_⟩
  obtain rfl := Value.node.inj (List.mem_singleton.1 hc)
  exact h

theorem holds_optionalChild {n : Option Node} (h : ∀ m ∈ n, P m) :
    FieldRole.optionalChild.Holds P (.optionalNode n) := by
  refine ⟨⟨n, rfl⟩, fun c hc => ?_⟩
  cases n with
  | none => exact absurd hc List.not_mem_nil
  | some n =>
      obtain rfl := Value.node.inj (List.mem_singleton.1 hc)
      exact h c rfl

theorem holds_children {ns : List Node} (h : ∀ n ∈ ns, P n) :
    FieldRole.children.Holds P (.nodes ns) := by
  refine ⟨⟨ns, rfl⟩, fun c hc => ?_⟩
  rw [directNodes_nodes] at hc
  obtain ⟨n, hn, hc⟩ := List.mem_map.1 hc
  obtain rfl := Value.node.inj hc
  exact h n hn

theorem Node.Holds.isFitted {n : Node} (h : n.Holds P) : n.IsFitted := h.imp fun _ _ hv => hv.1

theorem Node.Holds.of_mem_fields {n : Node} (h : n.Holds P) {v : Value} (hv : v ∈ n.fields)
    {c : Node} (hc : .node c ∈ v.directNodes) : P c := by
  rw [Node.Holds] at h
  generalize n.type.fields = shapes, n.fields = fields at h hv
  induction h with
  | nil => exact absurd hv List.not_mem_nil
  | cons hfirst _ ih =>
      rcases List.mem_cons.1 hv with rfl | hv
      · exact hfirst.2 c hc
      · exact ih hv

theorem Node.Holds.of_mem_children {n c : Node} (h : n.Holds P) (hc : .node c ∈ n.children) :
    P c := by
  rw [h.isFitted.children_eq] at hc
  obtain ⟨v, hv, hc⟩ := List.mem_flatMap.1 hc
  exact h.of_mem_fields hv hc

end

/-! ## Substitution -/

section

variable {f : Node → Option Replacement}
  (hf : ∀ n r, f n = some r → ∃ m, (Rebuilt.settle n r).value = .node m)

include hf

/-- Nodes in the place of nodes make a node. -/
theorem exists_node_substitute (n : Node) : ∃ m, n.substitute f = .node m := by
  obtain ⟨type, span, fields⟩ := n
  rw [Node.substitute]
  cases hn : f ⟨type, span, fields⟩ with
  | none => exact ⟨_, rfl⟩
  | some r => exact hf _ r hn

theorem exists_nodes_substitute (ns : List Node) :
    ∃ ms : List Node, ns.map (Node.substitute f) = ms.map .node := by
  induction ns with
  | nil => exact ⟨[], rfl⟩
  | cons n ns ih =>
      obtain ⟨m, hm⟩ := exists_node_substitute hf n
      obtain ⟨ms, hms⟩ := ih
      exact ⟨m :: ms, by rw [List.map_cons, List.map_cons, hm, hms]⟩

theorem isSome_node?_substituteElement (v : Value) :
    (v.substituteElement f).node?.isSome = v.node?.isSome := by
  cases v with
  | node n =>
      obtain ⟨m, hm⟩ := exists_node_substitute hf n
      rw [Value.substituteElement, hm]
      rfl
  | _ => rfl

omit hf in
theorem substituteElements_eq (vs : List Value) :
    substituteElements f vs = vs.map (Value.substituteElement f) := by
  induction vs with
  | nil => rfl
  | cons v vs ih => rw [substituteElements, ih, List.map_cons]

omit hf in
theorem substituteFields_eq (vs : List Value) :
    substituteFields f vs = vs.map (Value.substituteField f) := by
  induction vs with
  | nil => rfl
  | cons v vs ih => rw [substituteFields, ih, List.map_cons]

/-- The nodes in a field after substitution are those that stand for the nodes before. -/
theorem directNodes_substituteField (v : Value) :
    (v.substituteField f).directNodes = v.directNodes.map (Value.substituteElement f) := by
  cases v with
  | node n =>
      obtain ⟨m, hm⟩ := exists_node_substitute hf n
      rw [Value.substituteField, hm]
      exact congrArg (fun v => [v]) hm.symm
  | sequence kind items =>
      cases kind with
      | list => rfl
      | tuple =>
          rw [Value.substituteField, substituteElements_eq]
          show (items.map _).filter _ = (items.filter _).map _
          rw [List.filter_map]
          refine congrArg (List.map _) (List.filter_congr fun v _ => ?_)
          exact isSome_node?_substituteElement hf v
  | _ => rfl

theorem FieldRole.Fits.substituteField {role : FieldRole} {v : Value} (h : role.Fits v) :
    role.Fits (v.substituteField f) := by
  cases role with
  | label =>
      have hnil : v.directNodes = [] := h
      show (v.substituteField f).directNodes = []
      rw [directNodes_substituteField hf, hnil]
      rfl
  | child =>
      obtain ⟨n, rfl⟩ := h
      exact exists_node_substitute hf n
  | optionalChild =>
      obtain ⟨n, rfl⟩ := h
      cases n with
      | none => exact ⟨none, rfl⟩
      | some n =>
          obtain ⟨m, hm⟩ := exists_node_substitute hf n
          exact ⟨some m, hm⟩
  | children =>
      obtain ⟨ns, rfl⟩ := h
      obtain ⟨ms, hms⟩ := exists_nodes_substitute hf ns
      refine ⟨ms, ?_⟩
      show Value.tuple (substituteElements f (ns.map .node)) = .tuple (ms.map .node)
      rw [substituteElements_eq, List.map_map, ← hms]
      rfl
  | anything => trivial

/-- A fitted node that is not replaced itself stays fitted. -/
theorem Node.IsFitted.substitute {n : Node} (h : n.IsFitted) :
    (⟨n.type, n.span, substituteFields f n.fields⟩ : Node).IsFitted := by
  rw [Node.IsFitted, substituteFields_eq]
  exact List.forall₂_map_right_iff.2 (h.imp fun _ _ hfits => hfits.substituteField hf)

/-- What stands for the children of a fitted node that is not replaced itself are its children. -/
theorem Node.IsFitted.children_substitute {n : Node} (h : n.IsFitted) :
    (⟨n.type, n.span, substituteFields f n.fields⟩ : Node).children =
      n.children.map (Value.substituteElement f) := by
  rw [(h.substitute hf).children_eq, h.children_eq, substituteFields_eq, List.flatMap_map,
    List.map_flatMap]
  exact congrArg (List.flatMap · _) (funext fun v => directNodes_substituteField hf v)

end

/-- Nothing changes in a field without nodes. -/
theorem substituteField_of_no_nodes {v : Value} (f : Node → Option Replacement)
    (h : v.directNodes = []) : v.substituteField f = v := by
  cases v with
  | node n => exact absurd h (List.cons_ne_nil _ _)
  | sequence kind items =>
      cases kind with
      | list => rfl
      | tuple =>
          have hitems : ∀ v ∈ items, v.substituteElement f = v := by
            intro v hv
            cases v with
            | node n => exact absurd (List.filter_eq_nil_iff.1 h _ hv) (by simp [Value.node?])
            | _ => rfl
          rw [Value.substituteField, substituteElements_eq, List.map_congr_left hitems,
            List.map_id']
          rfl
  | _ => rfl

/-- Nothing changes in a fitted node without children. -/
theorem Node.IsFitted.substituteFields_of_no_children {n : Node} (h : n.IsFitted)
    (f : Node → Option Replacement) (hnil : n.children = []) :
    substituteFields f n.fields = n.fields := by
  rw [h.children_eq, List.flatMap_eq_nil_iff] at hnil
  rw [substituteFields_eq,
    List.map_congr_left fun v hv => substituteField_of_no_nodes f (hnil v hv), List.map_id']

end Spruce
