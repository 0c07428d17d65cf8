import Spruce.Tree.Traversal

set_option autoImplicit false

/-!
# Nodes below a node

What stands in a tree are its root and whatever stands in the trees of the root's children. A walk
over a tree all of whose children are nodes is not ended early, goes through the trees of the
children one after the other (`Node.IsTree.walk_eq`), and so meets just these nodes
(`walk_of_isTree`).

Main definitions: `Node.Has` and `Node.IsTree`.
-/

namespace Spruce

/-- The node `m` is `n` or stands below it. -/
inductive Node.Has : (n m : Node) → Prop where
  | refl {n : Node} : Has n n
  | child {n c m : Node} (hc : .node c ∈ n.children) (h : Has c m) : Has n m

theorem Node.Has.trans {n m k : Node} (h : n.Has m) (hk : m.Has k) : n.Has k := by
  induction h with
  | refl => exact hk
  | child hc _ ih => exact .child hc (ih hk)

theorem size_lt_of_mem_children {n c : Node} (h : .node c ∈ n.children) : c.size < n.size := by
  have hle : ∀ vs : List Value, .node c ∈ vs → c.size ≤ sizeAll vs := by
    intro vs hc
    obtain ⟨before, after, rfl⟩ := List.append_of_mem hc
    simp only [sizeAll_append, sizeAll, Value.size]
    omega
  exact Nat.lt_of_le_of_lt (hle _ h) (size_children_lt n)

/-- A node of which all children are nodes, and so for every node below it. -/
def Node.IsTree (n : Node) : Prop := ∀ m, n.Has m → ∃ ns : List Node, m.children = ns.map .node

theorem Node.IsTree.of_mem_children {n c : Node} (h : n.IsTree) (hc : .node c ∈ n.children) :
    c.IsTree := by
  intro m hm
  exact h m (.child hc hm)

/-- What stands in a tree whose children are known. -/
theorem Node.has_iff {n m : Node} {ns : List Node} (h : n.children = ns.map .node) :
    n.Has m ↔ m = n ∨ ∃ c ∈ ns, c.Has m := by
  constructor
  · intro hm
    cases hm with
    | refl => exact .inl rfl
    | child hc hm =>
        rw [h] at hc
        obtain ⟨c', hmem, heq⟩ := List.mem_map.1 hc
        obtain rfl := Value.node.inj heq
        exact .inr ⟨c', hmem, hm⟩
  · rintro (rfl | ⟨c, hc, hm⟩)
    · exact .refl
    · exact .child (h ▸ List.mem_map_of_mem hc) hm

/-- What holds of a node and of all that stands in its children holds of all that stands in it. -/
theorem Node.forall_has {P : Node → Prop} {n : Node} {ns : List Node}
    (hchildren : n.children = ns.map .node) (hroot : P n)
    (hbelow : ∀ c ∈ ns, ∀ m, c.Has m → P m) : ∀ m, n.Has m → P m := by
  intro m hm
  rcases (Node.has_iff hchildren).1 hm with rfl | ⟨c, hc, hm⟩
  · exact hroot
  · exact hbelow c hc m hm

/-- A node whose children are trees is one. -/
theorem Node.IsTree.intro {n : Node} {ns : List Node} (hchildren : n.children = ns.map .node)
    (h : ∀ c ∈ ns, c.IsTree) : n.IsTree := Node.forall_has hchildren ⟨ns, hchildren⟩ h

theorem Node.IsTree.of_children_eq_nil {n : Node} (h : n.children = [].map .node) : n.IsTree :=
  .intro h fun _ hc => absurd hc List.not_mem_nil

/-- In a tree without children there is nothing but its root. -/
theorem Node.eq_of_has {n m : Node} (hchildren : n.children = []) (h : n.Has m) : m = n := by
  cases h with
  | refl => rfl
  | child hc _ => exact absurd (hchildren ▸ hc) List.not_mem_nil

/-! ## Walks -/

/-- A walk over trees on a stack meets the nodes of one after the other. -/
theorem visit_eq_flatMap : (stack : List Node) → (∀ n ∈ stack, n.IsTree) →
    visit (stack.map .node) = ⟨stack.flatMap fun n => (Value.node n).walk.nodes, none⟩
  | [], _ => by
      rw [List.map_nil, visit]
      rfl
  | n :: stack, h => by
      obtain ⟨hn, hstack⟩ := List.forall_mem_cons.1 h
      obtain ⟨ns, hchildren⟩ := hn n .refl
      have hns : ∀ c ∈ ns, c.IsTree := fun c hc =>
        hn.of_mem_children (hchildren ▸ List.mem_map_of_mem hc)
      have hbelow := visit_eq_flatMap ns hns
      -- the children come before what was on the stack
      have hrest := visit_eq_flatMap (ns ++ stack) (List.forall_mem_append.2 ⟨hns, hstack⟩)
      have hwalk : (Value.node n).walk = (visit (ns.map .node)).after n := by
        rw [Value.walk, visit, hchildren, List.append_nil]
      rw [List.map_cons, visit, hchildren, ← List.map_append, hrest, List.flatMap_cons, hwalk,
        hbelow, List.flatMap_append]
      rfl
termination_by stack => sizeAll (stack.map .node)
decreasing_by
  all_goals
    have hlt := size_children_lt n
    rw [hchildren] at hlt
    simp only [List.map_append, List.map_cons, sizeAll_append, sizeAll, Value.size]
    omega

/-- A walk over a tree meets its root, and then what walks over its children meet. -/
theorem Node.IsTree.walk_eq {n : Node} (h : n.IsTree) {ns : List Node}
    (hchildren : n.children = ns.map .node) :
    (Value.node n).walk = ⟨n :: ns.flatMap fun c => (Value.node c).walk.nodes, none⟩ := by
  have hns : ∀ c ∈ ns, c.IsTree := fun c hc =>
    h.of_mem_children (hchildren ▸ List.mem_map_of_mem hc)
  rw [Value.walk, visit, hchildren, List.append_nil, visit_eq_flatMap ns hns]
  rfl

/-- A walk over a tree ends at no obstacle and meets the nodes of the tree. -/
theorem walk_of_isTree {n : Node} (h : n.IsTree) :
    (Value.node n).walk.obstacle = none ∧ ∀ m, m ∈ (Value.node n).walk.nodes ↔ n.Has m := by
  obtain ⟨ns, hchildren⟩ := h n .refl
  rw [h.walk_eq hchildren]
  refine ⟨rfl, fun m => ?_⟩
  rw [List.mem_cons, List.mem_flatMap, Node.has_iff hchildren]
  refine or_congr_right (exists_congr fun c => and_congr_right fun hc => ?_)
  have hmem : Value.node c ∈ n.children := hchildren ▸ List.mem_map_of_mem hc
  exact (walk_of_isTree (h.of_mem_children hmem)).2 m
termination_by n.size
decreasing_by exact size_lt_of_mem_children hmem

end Spruce
