import Spruce.Diagnostic.Fault

set_option autoImplicit false

/-!
# Visiting trees

The children of a node are the contents of those of its fields that its type makes
part of the tree, in source order; a name is no child. They are nodes in a tree
that was read, and may be any values in one made by hand.

A walk visits a node, then the walk of each of its children. It keeps what is still
to be visited on a stack, so that its depth is not bounded by the tree's, and it
ends early at a value that is no node. It finds nothing in a field that holds no
sequence of children where one is meant; whoever asks for the children or the nodes of
a tree is told of such a field (`Value.children`, `Walk.allNodes`).

Main definitions: `Node.children` and `Value.children`; `Value.walk`, with what it
met and what ended it (`Walk`). Main statements: the children of a node are together
smaller than the node (`size_children_lt`), which is why a walk ends; and when the
nodes that it met can be listed (`Walk.allNodes_eq_ok_iff`).
-/

namespace Spruce

/-! ## Children -/

/-- The nodes that the contents of a field are or hold, lists left out. -/
def Value.directNodes : Value → List Value
  | .node n => [.node n]
  | .sequence .tuple items => items.filter fun v => v.node?.isSome
  | _ => []

/-- The children that a field with the given contents has. -/
def FieldRole.childrenIn (v : Value) : FieldRole → List Value
  | label => []
  | child => [v]
  | optionalChild =>
      match v with
      | .absent => []
      | v => [v]
  | children => v.elements
  | anything => v.directNodes

/-- The children of a node, in source order. -/
def Node.children (n : Node) : List Value :=
  (n.type.fields.zip n.fields).flatMap fun f => f.1.role.childrenIn f.2

/-- The contents of a field have to be a sequence where one of children is meant. -/
def FieldRole.check (v : Value) : FieldRole → Except Fault Unit
  | children => discard v.toElements
  | _ => pure ()

/-- The fields of a node have to hold sequences where those of children are meant. -/
def Node.checkFields (n : Node) : Except Fault Unit :=
  (n.type.fields.zip n.fields).forM fun f => f.1.role.check f.2

/-- Checks that are made in turn succeed just when each does. -/
theorem forM_eq_ok_iff {α ε : Type} {f : α → Except ε Unit} {xs : List α} :
    xs.forM f = .ok () ↔ ∀ x ∈ xs, f x = .ok () := by
  induction xs with
  | nil => exact ⟨fun _ _ hx => absurd hx List.not_mem_nil, fun _ => rfl⟩
  | cons x xs ih =>
      rw [List.forall_mem_cons, ← ih]
      show (f x >>= fun _ => xs.forM f) = _ ↔ _
      cases f x with
      | error e =>
          constructor
          · intro h
            cases h
          · rintro ⟨h, -⟩
            cases h
      | ok u => exact ⟨fun h => ⟨rfl, h⟩, fun h => h.2⟩

/-- The children of a value, which has to be a node. -/
def Value.children (v : Value) : Except Fault (List Value) :=
  match v with
  | .node n => do
      n.checkFields
      pure n.children
  | v => .error (.notANode v)

/-! ## Size -/

mutual

/-- The number of nodes in a tree, in fields of any kind. -/
def Node.size : Node → Nat
  | ⟨_, _, fields⟩ => 1 + sizeAll fields
termination_by structural n => n

/-- The number of nodes in a value. -/
def Value.size : Value → Nat
  | .node n => n.size
  | .sequence _ items => sizeAll items
  | _ => 0
termination_by structural v => v

/-- The number of nodes in some values. -/
def sizeAll : List Value → Nat
  | [] => 0
  | v :: vs => v.size + sizeAll vs
termination_by structural vs => vs

end

theorem Node.size_eq (n : Node) : n.size = 1 + sizeAll n.fields := by
  cases n
  simp [Node.size]

@[simp] theorem sizeAll_append (vs ws : List Value) :
    sizeAll (vs ++ ws) = sizeAll vs + sizeAll ws := by
  induction vs with
  | nil => simp [sizeAll]
  | cons v vs ih => simp [sizeAll, ih, Nat.add_assoc]

theorem sizeAll_filter_le (p : Value → Bool) (vs : List Value) :
    sizeAll (vs.filter p) ≤ sizeAll vs := by
  induction vs with
  | nil => simp
  | cons v vs ih =>
      rw [List.filter_cons]
      split <;> simp only [sizeAll] <;> omega

/-- The characters of a text hold no nodes. -/
theorem sizeAll_characters (s : String) : sizeAll (Value.characters s) = 0 := by
  unfold Value.characters
  induction s.toList with
  | nil => simp [sizeAll]
  | cons c cs ih => simp [sizeAll, Value.size, ih]

theorem sizeAll_elements_le (v : Value) : sizeAll v.elements ≤ v.size := by
  cases v <;> simp [Value.elements, Value.size, sizeAll, sizeAll_characters]

theorem sizeAll_directNodes_le (v : Value) : sizeAll v.directNodes ≤ v.size := by
  unfold Value.directNodes
  split
  · simp [sizeAll]
  · simpa [Value.size] using sizeAll_filter_le _ _
  · simp [sizeAll]

/-- The children of a field are together no larger than its contents. -/
theorem sizeAll_childrenIn_le (v : Value) (role : FieldRole) :
    sizeAll (role.childrenIn v) ≤ v.size := by
  cases role with
  | label => simp [FieldRole.childrenIn, sizeAll]
  | child => simp [FieldRole.childrenIn, sizeAll]
  | optionalChild => cases v <;> simp [FieldRole.childrenIn, sizeAll]
  | children => exact sizeAll_elements_le v
  | anything => exact sizeAll_directNodes_le v

/-- The children of a node are together smaller than the node. -/
theorem size_children_lt (n : Node) : sizeAll n.children < n.size := by
  suffices h : ∀ (shapes : List FieldShape) (vs : List Value),
      sizeAll ((shapes.zip vs).flatMap fun f => f.1.role.childrenIn f.2) ≤ sizeAll vs by
    have := h n.type.fields n.fields
    rw [Node.size_eq]
    unfold Node.children
    omega
  intro shapes
  induction shapes with
  | nil => simp [sizeAll]
  | cons shape shapes ih =>
      intro vs
      cases vs with
      | nil => simp [sizeAll]
      | cons v vs =>
          have := ih vs
          have := sizeAll_childrenIn_le v shape.role
          simp only [List.zip_cons_cons, List.flatMap_cons, sizeAll_append, sizeAll]
          omega

/-! ## Walks -/

/-- What a walk met: nodes, and the value that ended it because it is no node, if
one did. -/
structure Walk where
  nodes : List Node
  obstacle : Option Value

/-- A walk that meets `n` first. -/
def Walk.after (n : Node) (w : Walk) : Walk := { w with nodes := n :: w.nodes }

/-- The walk over the values on a stack from the top down, each followed by
everything under it. -/
def visit : (stack : List Value) → Walk
  | [] => ⟨[], none⟩
  | .node n :: stack => (visit (n.children ++ stack)).after n
  | v :: _ => ⟨[], some v⟩
termination_by stack => sizeAll stack
decreasing_by
  have := size_children_lt n
  simp only [sizeAll, sizeAll_append, Value.size]
  omega

/-- The walk over a value and everything under it, each node before its
descendants. -/
def Value.walk (v : Value) : Walk := visit [v]

/-- The nodes met by a walk that nothing ended early, with nothing wrong in their
fields. -/
def Walk.allNodes (w : Walk) : Except Fault (List Node) := do
  w.nodes.forM Node.checkFields
  match w.obstacle with
  | none => pure w.nodes
  | some v => throw (.notANode v)

/-- The nodes that a walk met can be listed just when it met nothing else, and nothing is
wrong in their fields. -/
theorem Walk.allNodes_eq_ok_iff {w : Walk} {ns : List Node} :
    w.allNodes = .ok ns ↔
      (∀ n ∈ w.nodes, n.checkFields = .ok ()) ∧ w.obstacle = none ∧ w.nodes = ns := by
  rw [← forM_eq_ok_iff, Walk.allNodes]
  cases w.nodes.forM Node.checkFields with
  | error fault =>
      constructor
      · intro h
        cases h
      · rintro ⟨h, -⟩
        cases h
  | ok u =>
      cases w.obstacle with
      | none => exact ⟨fun h => ⟨rfl, rfl, Except.ok.inj h⟩, fun h => congrArg Except.ok h.2.2⟩
      | some v =>
          constructor
          · intro h
            cases h
          · rintro ⟨-, h, -⟩
            cases h

end Spruce
