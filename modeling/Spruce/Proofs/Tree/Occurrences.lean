import Spruce.Proofs.Tree.Descendants
import Spruce.Proofs.Tree.Fields

set_option autoImplicit false

/-!
# Occurrences of nodes

A node stands in a tree at a path: the numbers, counted from zero, of the fields and of the elements
of tuples that lead to it from the root. Rebuilding offers nodes for replacement field by field, and
goes on below a node only if it is not replaced. The nodes offered are then, in order, those above
which nothing was replaced (`Node.offered_eq_filter`), and if the fields of all nodes fit their
types, the nodes of the tree in that order are those of a walk over it
(`Node.IsFittedTree.walk_eq`), and nothing goes wrong in it (`Node.IsFittedTree.allNodes_eq`).

Main definitions: `Occurrence`, `Node.occurrences`, `Node.offered` and `Occurrence.IsReached`.
-/

namespace Spruce

/-! ## Occurrences and what is answered for them -/

/-- A node in a tree, and the path that leads to it from the root. -/
structure Occurrence where
  path : List Nat
  node : Node

namespace Occurrence

/-- An occurrence seen from one step further up. -/
def under (i : Nat) (p : Occurrence) : Occurrence := { p with path := i :: p.path }

/-- The occurrence `q` is that of a proper ancestor of the node at `p`. -/
def IsAbove (q p : Occurrence) : Prop := q.path <+: p.path ∧ q.path ≠ p.path

instance (q p : Occurrence) : Decidable (q.IsAbove p) := inferInstanceAs (Decidable (_ ∧ _))

theorem not_isAbove_root (q : Occurrence) (n : Node) : ¬q.IsAbove ⟨[], n⟩ := by
  rintro ⟨hbegins, hne⟩
  exact hne (List.prefix_nil.1 hbegins)

theorem root_isAbove_under (n : Node) (i : Nat) (p : Occurrence) :
    (⟨[], n⟩ : Occurrence).IsAbove (p.under i) :=
  ⟨List.nil_prefix, (List.cons_ne_nil _ _).symm⟩

theorem under_isAbove_under_iff {i j : Nat} {p q : Occurrence} :
    (q.under j).IsAbove (p.under i) ↔ j = i ∧ q.IsAbove p := by
  simp only [IsAbove, under, List.cons_prefix_cons, ne_eq, List.cons.injEq]
  constructor
  · rintro ⟨⟨rfl, hbegins⟩, hne⟩
    exact ⟨rfl, hbegins, fun h => hne ⟨rfl, h⟩⟩
  · rintro ⟨rfl, hbegins, hne⟩
    exact ⟨⟨rfl, hbegins⟩, fun h => hne h.2⟩

end Occurrence

/-- What is answered for the nodes of a tree that are offered for replacement, by their paths. -/
abbrev Replies := List Nat → Node → Option Replacement

namespace Replies

/-- The replies for what stands under the `i`-th field or element. -/
def below (replies : Replies) (i : Nat) : Replies := fun path => replies (i :: path)

/-- No node is replaced. -/
def none : Replies := fun _ _ => .none

end Replies

/-- Nothing among the occurrences `ps` that stands above `p` was replaced. -/
def Occurrence.IsReached (replies : Replies) (ps : List Occurrence) (p : Occurrence) : Prop :=
  ∀ q ∈ ps, q.IsAbove p → replies q.path q.node = .none

instance (replies : Replies) (ps : List Occurrence) (p : Occurrence) :
    Decidable (p.IsReached replies ps) := List.decidableBAll _ _

/-! ## Nodes offered -/

/-- What holds a value: a field of a node, where a tuple is gone through, or a tuple, where only
nodes are looked into. -/
inductive Holder where
  | field
  | tuple

mutual

/-- The nodes of a tree that are offered, in order, when the replies are these: the root, and if it
is not replaced, those offered in its fields. -/
def Node.offered (replies : Replies) : Node → List Occurrence
  | ⟨type, span, fields⟩ =>
      ⟨[], ⟨type, span, fields⟩⟩ ::
        match replies [] ⟨type, span, fields⟩ with
        | some _ => []
        | none => offeredAmong .field replies 0 fields
termination_by structural n => n

/-- The nodes offered in a value that a field or tuple holds. -/
def Value.offeredIn (holder : Holder) (replies : Replies) : Value → List Occurrence
  | .node n => n.offered replies
  | .sequence .tuple items =>
      match holder with
      | .field => offeredAmong .tuple replies 0 items
      | .tuple => []
  | _ => []
termination_by structural v => v

/-- The nodes offered in the fields or elements from the `i`-th on. -/
def offeredAmong (holder : Holder) (replies : Replies) (i : Nat) : List Value → List Occurrence
  | [] => []
  | v :: vs =>
      (v.offeredIn holder (replies.below i)).map (.under i) ++
        offeredAmong holder replies (i + 1) vs
termination_by structural vs => vs

end

/-- All nodes of a tree, each where it stands, in preorder. -/
def Node.occurrences (n : Node) : List Occurrence := n.offered .none

/-! ## Paths -/

/-- The fields of a node, and the elements of a tuple. -/
def Value.parts : Value → List Value
  | .node n => n.fields
  | .sequence .tuple items => items
  | _ => []

/-- What stands in a value at the end of a path, if the path does not lead out of it. -/
def Value.at? : List Nat → Value → Option Value
  | [], v => some v
  | i :: path, v => v.parts[i]?.bind (at? path)

/-- How the parts of a value are held if nodes in them are offered, when the replies are these. -/
def Value.opened (holder : Holder) (replies : Replies) : Value → Option Holder
  | .node n =>
      match replies [] n with
      | some _ => none
      | none => some .field
  | .sequence .tuple _ =>
      match holder with
      | .field => some .tuple
      | .tuple => none
  | _ => none

theorem mem_offeredAmong_iff {holder : Holder} {replies : Replies} {i : Nat} {vs : List Value}
    {p : Occurrence} : p ∈ offeredAmong holder replies i vs ↔
      ∃ (j : Nat) (v : Value) (q : Occurrence), vs[j]? = some v ∧
        q ∈ v.offeredIn holder (replies.below (i + j)) ∧ p = q.under (i + j) := by
  induction vs generalizing i with
  | nil => simp [offeredAmong]
  | cons v vs ih =>
      rw [offeredAmong, List.mem_append, ih, List.mem_map]
      constructor
      · rintro (⟨q, hq, rfl⟩ | ⟨j, w, q, hw, hq, rfl⟩)
        · exact ⟨0, v, q, rfl, hq, rfl⟩
        · refine ⟨j + 1, w, q, hw, ?_⟩
          rw [← Nat.add_assoc, Nat.add_right_comm]
          exact ⟨hq, rfl⟩
      · rintro ⟨j, w, q, hw, hq, rfl⟩
        cases j with
        | zero =>
            obtain rfl := Option.some.inj hw
            exact .inl ⟨q, hq, rfl⟩
        | succ j =>
            rw [← Nat.add_assoc, Nat.add_right_comm] at hq ⊢
            exact .inr ⟨j, w, q, hw, hq, rfl⟩

/-- What is offered in a value is the value itself, if it is a node, and what is offered in its
parts. -/
theorem mem_offeredIn_iff {holder : Holder} {replies : Replies} {v : Value} {p : Occurrence} :
    p ∈ v.offeredIn holder replies ↔ (∃ n, v = .node n ∧ p = ⟨[], n⟩) ∨
      ∃ (holder' : Holder) (i : Nat) (w : Value) (q : Occurrence),
        v.opened holder replies = some holder' ∧ v.parts[i]? = some w ∧
          q ∈ w.offeredIn holder' (replies.below i) ∧ p = q.under i := by
  cases v with
  | node n =>
      obtain ⟨type, span, fields⟩ := n
      show p ∈ Node.offered replies ⟨type, span, fields⟩ ↔ _
      rw [Node.offered, List.mem_cons]
      simp only [Value.opened, Value.parts, Value.node.injEq, exists_eq_left']
      refine or_congr_right ?_
      cases replies [] ⟨type, span, fields⟩ with
      | some r => simp
      | none =>
          rw [mem_offeredAmong_iff]
          simp only [Nat.zero_add, Option.some.injEq, exists_and_left, exists_eq_left']
  | sequence kind items =>
      cases kind with
      | list => simp [Value.offeredIn, Value.opened]
      | tuple =>
          cases holder with
          | tuple => simp [Value.offeredIn, Value.opened]
          | field =>
              show p ∈ offeredAmong .tuple replies 0 items ↔ _
              rw [mem_offeredAmong_iff]
              simp [Value.opened, Value.parts]
  | _ => simp [Value.offeredIn, Value.opened]

/-- A node that is offered stands at the end of its path. -/
theorem at?_of_mem_offeredIn {holder : Holder} {replies : Replies} {v : Value} {p : Occurrence}
    (h : p ∈ v.offeredIn holder replies) : v.at? p.path = some (.node p.node) := by
  obtain ⟨path, n⟩ := p
  induction path generalizing v holder replies with
  | nil =>
      rcases mem_offeredIn_iff.1 h with ⟨m, rfl, heq⟩ | ⟨_, i, _, q, -, -, -, heq⟩
      · obtain rfl := congrArg Occurrence.node heq
        rfl
      · exact absurd (congrArg Occurrence.path heq) (List.cons_ne_nil _ _).symm
  | cons i path ih =>
      rcases mem_offeredIn_iff.1 h with ⟨m, rfl, heq⟩ | ⟨_, j, w, q, -, hw, hq, heq⟩
      · exact absurd (congrArg Occurrence.path heq) (List.cons_ne_nil _ _)
      · obtain ⟨rfl, rfl⟩ := List.cons.inj (congrArg Occurrence.path heq)
        obtain rfl := congrArg Occurrence.node heq
        rw [Value.at?, hw]
        exact ih hq

/-! ## Nodes reached -/

/-- These occurrences stand under fields or elements from the `i`-th on. -/
def AllUnder (i : Nat) (ps : List Occurrence) : Prop :=
  ∀ p ∈ ps, ∃ (j : Nat) (q : Occurrence), i ≤ j ∧ p = q.under j

theorem AllUnder.cons {i : Nat} (ps : List Occurrence) {qs : List Occurrence}
    (h : AllUnder (i + 1) qs) : AllUnder i (ps.map (Occurrence.under i) ++ qs) := by
  intro p hp
  rcases List.mem_append.1 hp with hp | hp
  · obtain ⟨q, -, rfl⟩ := List.mem_map.1 hp
    exact ⟨i, q, Nat.le_refl i, rfl⟩
  · obtain ⟨j, q, hj, rfl⟩ := h p hp
    exact ⟨j, q, Nat.le_of_succ_le hj, rfl⟩

theorem allUnder_offeredAmong (holder : Holder) (replies : Replies) (i : Nat)
    (vs : List Value) : AllUnder i (offeredAmong holder replies i vs) := by
  induction vs generalizing i with
  | nil => exact fun p hp => absurd hp List.not_mem_nil
  | cons v vs ih => exact (ih (i + 1)).cons _

/-- Under one field nodes are reached as if it were alone, as those under the other fields stand
beside them. -/
theorem filter_isReached_cons (replies : Replies) (i : Nat) (ps : List Occurrence)
    {qs : List Occurrence} (h : AllUnder (i + 1) qs) :
    (ps.map (Occurrence.under i) ++ qs).filter
        (·.IsReached replies (ps.map (Occurrence.under i) ++ qs)) =
      (ps.filter (·.IsReached (replies.below i) ps)).map (Occurrence.under i) ++
        qs.filter (·.IsReached replies qs) := by
  rw [List.filter_append, List.filter_map]
  congr 1
  · refine congrArg (List.map _) (List.filter_congr fun p _ => decide_eq_decide.2 ?_)
    constructor
    · intro hreached q hq habove
      apply hreached (q.under i) (List.mem_append_left _ (List.mem_map_of_mem hq))
      exact Occurrence.under_isAbove_under_iff.2 ⟨rfl, habove⟩
    · intro hreached q hq habove
      rcases List.mem_append.1 hq with hq | hq
      · obtain ⟨q, hmem, rfl⟩ := List.mem_map.1 hq
        exact hreached q hmem (Occurrence.under_isAbove_under_iff.1 habove).2
      · obtain ⟨j, q, hj, rfl⟩ := h q hq
        have hji := (Occurrence.under_isAbove_under_iff.1 habove).1
        omega
  · refine List.filter_congr fun p hp => decide_eq_decide.2 ?_
    constructor
    · intro hreached q hq
      exact hreached q (List.mem_append_right _ hq)
    · intro hreached q hq habove
      rcases List.mem_append.1 hq with hq | hq
      · obtain ⟨q, -, rfl⟩ := List.mem_map.1 hq
        obtain ⟨j, p, hj, rfl⟩ := h p hp
        have hij := (Occurrence.under_isAbove_under_iff.1 habove).1
        omega
      · exact hreached q hq habove

/-- The root is reached, and what is below it if the root is not replaced. -/
theorem filter_isReached_root (n : Node) (replies : Replies) {ps : List Occurrence}
    (h : AllUnder 0 ps) :
    (⟨[], n⟩ :: ps).filter (·.IsReached replies (⟨[], n⟩ :: ps)) = ⟨[], n⟩ ::
      match replies [] n with
      | some _ => []
      | none => ps.filter (·.IsReached replies ps) := by
  have hroot : (⟨[], n⟩ : Occurrence).IsReached replies (⟨[], n⟩ :: ps) := fun q _ habove =>
    absurd habove (q.not_isAbove_root n)
  rw [List.filter_cons, if_pos (decide_eq_true hroot)]
  cases hn : replies [] n with
  | some r =>
      refine congrArg (List.cons _) (List.filter_eq_nil_iff.2 fun p hp hreached => ?_)
      obtain ⟨i, q, -, rfl⟩ := h p hp
      have hnone := of_decide_eq_true hreached ⟨[], n⟩ List.mem_cons_self
        (Occurrence.root_isAbove_under n i q)
      exact absurd (hn.symm.trans hnone) (Option.some_ne_none r)
  | none =>
      refine congrArg (List.cons _) (List.filter_congr fun p _ => decide_eq_decide.2 ?_)
      constructor
      · intro hreached q hq
        exact hreached q (List.mem_cons_of_mem _ hq)
      · intro hreached q hq habove
        rcases List.mem_cons.1 hq with rfl | hq
        · exact hn
        · exact hreached q hq habove

mutual

/-- The nodes that are offered are those above which nothing is replaced. -/
theorem Node.offered_eq_filter (replies : Replies) : (n : Node) →
    n.offered replies = n.occurrences.filter (·.IsReached replies n.occurrences)
  | ⟨type, span, fields⟩ => by
      have hunder := allUnder_offeredAmong .field .none 0 fields
      have hall : Node.occurrences ⟨type, span, fields⟩ =
          ⟨[], ⟨type, span, fields⟩⟩ :: offeredAmong .field .none 0 fields := rfl
      rw [hall, filter_isReached_root _ replies hunder, Node.offered]
      cases replies [] ⟨type, span, fields⟩ with
      | some r => rfl
      | none => exact congrArg (List.cons _) (offeredAmong_eq_filter .field replies 0 fields)
termination_by structural n => n

theorem Value.offeredIn_eq_filter (holder : Holder) (replies : Replies) : (v : Value) →
    v.offeredIn holder replies = (v.offeredIn holder .none).filter
      (·.IsReached replies (v.offeredIn holder .none))
  | .node n => n.offered_eq_filter replies
  | .sequence .tuple items => by
      cases holder with
      | field => exact offeredAmong_eq_filter .tuple replies 0 items
      | tuple => rfl
  | .sequence .list _ | .absent | .truth _ | .whole _ | .real _ | .text _ | .operator _
  | .operation _ | .targetKind _ | .fragment _ _ => rfl
termination_by structural v => v

theorem offeredAmong_eq_filter (holder : Holder) (replies : Replies) (i : Nat) :
    (vs : List Value) → offeredAmong holder replies i vs =
      (offeredAmong holder .none i vs).filter
        (·.IsReached replies (offeredAmong holder .none i vs))
  | [] => rfl
  | v :: vs => by
      have hunder := allUnder_offeredAmong holder .none (i + 1) vs
      rw [offeredAmong, v.offeredIn_eq_filter, offeredAmong_eq_filter holder replies (i + 1) vs]
      exact (filter_isReached_cons replies i _ hunder).symm
termination_by structural vs => vs

end

/-- If nothing that is offered is replaced, then every node is offered. -/
theorem Node.offered_eq_occurrences {replies : Replies} {n : Node}
    (h : ∀ p ∈ n.offered replies, replies p.path p.node = none) :
    n.offered replies = n.occurrences := by
  -- by induction on the length of its path, an occurrence has nothing replaced above it
  have hreached : ∀ (k : Nat) (p : Occurrence), p ∈ n.occurrences → p.path.length = k →
      p.IsReached replies n.occurrences := by
    intro k
    induction k using Nat.strongRecOn with
    | _ k ih =>
        rintro p hp rfl q hq habove
        have hlt : q.path.length < p.path.length :=
          Nat.lt_of_le_of_ne habove.1.length_le fun heq => habove.2 (habove.1.eq_of_length heq)
        apply h q
        rw [offered_eq_filter]
        exact List.mem_filter.2 ⟨hq, decide_eq_true (ih _ hlt q hq rfl)⟩
  rw [offered_eq_filter]
  exact List.filter_eq_self.2 fun p hp => decide_eq_true (hreached _ p hp rfl)

/-! ## Occurrences and walks -/

/-- The nodes that occur in an element of a tuple. -/
def Value.nodesIn (v : Value) : List Node := (v.offeredIn .tuple .none).map Occurrence.node

theorem nodes_offeredAmong_tuple (i : Nat) (vs : List Value) :
    (offeredAmong .tuple .none i vs).map Occurrence.node =
      vs.flatMap Value.nodesIn := by
  induction vs generalizing i with
  | nil => rfl
  | cons v vs ih =>
      rw [offeredAmong, List.map_append, List.map_map, ih, List.flatMap_cons]
      rfl

/-- What is no node can be left out of a tuple. -/
theorem flatMap_nodesIn_filter (vs : List Value) :
    (vs.filter fun v => v.node?.isSome).flatMap Value.nodesIn = vs.flatMap Value.nodesIn := by
  induction vs with
  | nil => rfl
  | cons v vs ih =>
      rw [List.filter_cons, List.flatMap_cons, ← ih]
      cases v with
      | sequence kind items => cases kind <;> rfl
      | _ => rfl

theorem nodes_offeredIn_field (v : Value) :
    (v.offeredIn .field .none).map Occurrence.node = v.directNodes.flatMap Value.nodesIn := by
  cases v with
  | node n => exact (List.append_nil _).symm
  | sequence kind items =>
      cases kind with
      | list => rfl
      | tuple => exact (nodes_offeredAmong_tuple 0 items).trans (flatMap_nodesIn_filter items).symm
  | _ => rfl

theorem nodes_offeredAmong_field (i : Nat) (vs : List Value) :
    (offeredAmong .field .none i vs).map Occurrence.node =
      (vs.flatMap Value.directNodes).flatMap Value.nodesIn := by
  induction vs generalizing i with
  | nil => rfl
  | cons v vs ih =>
      rw [offeredAmong, List.map_append, List.map_map, ih, List.flatMap_cons,
        List.flatMap_append, ← nodes_offeredIn_field]
      rfl

/-- The nodes of a tree are its root and those of its children. -/
theorem Node.IsFitted.nodes_occurrences {n : Node} (h : n.IsFitted) {ns : List Node}
    (hchildren : n.children = ns.map .node) :
    n.occurrences.map Occurrence.node =
      n :: ns.flatMap fun c => c.occurrences.map Occurrence.node := by
  obtain ⟨type, span, fields⟩ := n
  refine congrArg (List.cons _) ((nodes_offeredAmong_field 0 fields).trans ?_)
  rw [← h.children_eq, hchildren, List.flatMap_map]
  rfl

/-- A tree in which the fields of every node hold what they are for. -/
def Node.IsFittedTree (n : Node) : Prop := ∀ m, n.Has m → m.IsFitted

theorem Node.IsFittedTree.isTree {n : Node} (h : n.IsFittedTree) : n.IsTree :=
  fun m hm => (h m hm).exists_children

theorem Node.IsFittedTree.of_mem_children {n c : Node} (h : n.IsFittedTree)
    (hc : .node c ∈ n.children) : c.IsFittedTree := by
  intro m hm
  exact h m (.child hc hm)

/-- Nothing goes wrong in a walk over a tree of fitted nodes. -/
theorem Node.IsFittedTree.allNodes_eq {n : Node} (h : n.IsFittedTree) :
    (Value.node n).walk.allNodes = .ok (Value.node n).walk.nodes := by
  obtain ⟨hobstacle, hnodes⟩ := walk_of_isTree h.isTree
  refine Walk.allNodes_eq_ok_iff.2 ⟨fun m hm => ?_, hobstacle, rfl⟩
  exact (h m ((hnodes m).1 hm)).checkFields_eq

/-- A walk over a tree of fitted nodes meets the nodes that occur in it, in order. -/
theorem Node.IsFittedTree.walk_eq {n : Node} (h : n.IsFittedTree) :
    (Value.node n).walk = ⟨n.occurrences.map Occurrence.node, none⟩ := by
  obtain ⟨ns, hchildren⟩ := h.isTree n .refl
  rw [h.isTree.walk_eq hchildren, (h n .refl).nodes_occurrences hchildren]
  have hwalks : ∀ c ∈ ns,
      (Value.node c).walk.nodes = c.occurrences.map Occurrence.node := by
    intro c hc
    have hmem : Value.node c ∈ n.children := hchildren ▸ List.mem_map_of_mem hc
    rw [(h.of_mem_children hmem).walk_eq]
  rw [List.flatMap_congr hwalks]
termination_by n.size
decreasing_by exact size_lt_of_mem_children hmem

end Spruce
