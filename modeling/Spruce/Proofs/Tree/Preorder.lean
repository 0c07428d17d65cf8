import Mathlib.Data.List.Basic
import Mathlib.Tactic.Choose
import Spruce.Proofs.Tree.Descendants

set_option autoImplicit false

/-!
# Walks in preorder

A walk goes on in rounds. Each round takes the value on the top of the stack, meets it if it is a
node, and puts its children there, the last one first, so that the first one is on top
(`Visiting.next`). After as many rounds as there are nodes to meet nothing is left on the stack, or
what is on top is no node (`rounds_visit`).

The nodes of a tree are told apart by the paths that lead to them from child to child, as a tree
may hold one node at several places. A walk meets what stands at the end of each path once, and
before what is further down (`walk_preorder`).

Main definitions: `Visiting`, `Visiting.next` and `Visiting.rounds`; `Node.descendant?` and
`Node.Lists`.
-/

namespace Spruce

/-! ## Rounds -/

/-- A walk under way: the values still to be visited, of which the last is on the top of the stack,
and the nodes met so far. -/
structure Visiting where
  pending : List Value
  met : List Node

namespace Visiting

/-- A walk that is about to begin. -/
def start (v : Value) : Visiting := ⟨[v], []⟩

/-- The next round of a walk, if there is a node on the top of the stack. -/
def next (s : Visiting) : Option Visiting :=
  match s.pending.getLast? with
  | some (.node n) => some ⟨s.pending.dropLast ++ n.children.reverse, s.met ++ [n]⟩
  | _ => none

/-- A walk after some more rounds. -/
def rounds : Nat → Visiting → Option Visiting
  | 0, s => some s
  | k + 1, s => s.next.bind (rounds k)

theorem next_node (pending : List Value) (n : Node) (met : List Node) :
    next ⟨pending ++ [.node n], met⟩ = some ⟨pending ++ n.children.reverse, met ++ [n]⟩ := by
  rw [next]
  simp only [List.getLast?_append, List.getLast?_singleton, Option.some_or, List.dropLast_concat]

end Visiting

/-- The rounds of a walk from some stack meet what `visit` meets, and there is no further round. -/
theorem rounds_visit (stack : List Value) (met : List Node) :
    ∃ last : Visiting, Visiting.rounds (visit stack).nodes.length ⟨stack.reverse, met⟩ = some last ∧
      last.met = met ++ (visit stack).nodes ∧ last.pending.getLast? = (visit stack).obstacle ∧
      last.next = none := by
  induction stack using visit.induct generalizing met with
  | case1 =>
      rw [visit]
      exact ⟨⟨[], met⟩, rfl, (List.append_nil met).symm, rfl, rfl⟩
  | case2 n stack ih =>
      obtain ⟨last, hrounds, hmet, hobstacle, hnext⟩ := ih (met ++ [n])
      rw [visit]
      refine ⟨last, ?_, ?_, hobstacle, hnext⟩
      · show (Visiting.next _).bind _ = _
        rw [List.reverse_cons, Visiting.next_node, ← List.reverse_append]
        exact hrounds
      · rw [hmet, List.append_assoc]
        rfl
  | case3 v stack hv =>
      have htop : (v :: stack).reverse.getLast? = some v := by
        rw [List.getLast?_reverse, List.head?_cons]
      rw [visit]
      refine ⟨⟨(v :: stack).reverse, met⟩, rfl, (List.append_nil met).symm, htop, ?_⟩
      · rw [Visiting.next, htop]
        cases v with
        | node n => exact absurd rfl (hv n)
        | _ => rfl
      · exact hv

/-! ## Paths -/

/-- The node at the end of a path, which tells at each node which child to go on to. -/
def Node.descendant? : Node → List Nat → Option Node
  | n, [] => some n
  | n, i :: path =>
      match n.children[i]? with
      | some (.node c) => c.descendant? path
      | _ => none

/-- The paths lead to these nodes, all paths that lead to a node are among them, and none of them
comes after one that goes on from it or is the same. -/
structure Node.Lists (n : Node) (paths : List (List Nat)) (nodes : List Node) : Prop where
  nodes_eq : paths.map n.descendant? = nodes.map some
  mem_of_some : ∀ path m, n.descendant? path = some m → path ∈ paths
  ordered : paths.Pairwise fun p q => ¬q <+: p

theorem descendant?_cons {n c : Node} {ns : List Node} {i : Nat} (path : List Nat)
    (hchildren : n.children = ns.map .node) (hc : ns[i]? = some c) :
    n.descendant? (i :: path) = c.descendant? path := by
  have hchild : n.children[i]? = some (.node c) := by
    rw [hchildren, List.getElem?_map, hc]
    rfl
  rw [Node.descendant?, hchild]

/-- The paths in a tree are the empty one, and for each child those in it, which go on from the
place of the child. -/
theorem Node.Lists.node {n : Node} {ns : List Node} (hchildren : n.children = ns.map .node)
    {paths : Node → List (List Nat)} {nodes : Node → List Node}
    (h : ∀ c ∈ ns, c.Lists (paths c) (nodes c)) :
    n.Lists ([] :: ns.zipIdx.flatMap fun c => (paths c.1).map (c.2 :: ·))
      (n :: ns.flatMap nodes) := by
  have hplace : ∀ c ∈ ns.zipIdx, ns[c.2]? = some c.1 := fun c hc =>
    List.mk_mem_zipIdx_iff_getElem?.1 hc
  have hlists : ∀ c ∈ ns.zipIdx, c.1.Lists (paths c.1) (nodes c.1) := fun c hc =>
    h c.1 (List.mem_of_getElem? (hplace c hc))
  refine ⟨?_, ?_, ?_⟩
  · have hbelow : ∀ c ∈ ns.zipIdx, ((paths c.1).map (c.2 :: ·)).map n.descendant? =
        (nodes c.1).map some := by
      intro c hc
      rw [List.map_map, ← (hlists c hc).nodes_eq]
      exact List.map_congr_left fun path _ => descendant?_cons path hchildren (hplace c hc)
    rw [List.map_cons, List.map_flatMap, List.flatMap_congr hbelow, List.map_cons,
      List.map_flatMap, ← List.flatMap_map Prod.fst fun c => (nodes c).map some,
      List.zipIdx_map_fst]
    rfl
  · intro path m hm
    cases path with
    | nil => exact List.mem_cons_self
    | cons i path =>
        rw [Node.descendant?, hchildren, List.getElem?_map] at hm
        cases hc : ns[i]? with
        | none =>
            rw [hc] at hm
            exact absurd hm.symm (Option.some_ne_none m)
        | some c =>
            rw [hc] at hm
            have hmem : (c, i) ∈ ns.zipIdx := List.mk_mem_zipIdx_iff_getElem?.2 hc
            have hpath := (hlists _ hmem).mem_of_some path m hm
            exact List.mem_cons_of_mem _ (List.mem_flatMap.2 ⟨_, hmem, List.mem_map_of_mem hpath⟩)
  · refine List.pairwise_cons.2 ⟨?_, List.pairwise_flatMap.2 ⟨?_, ?_⟩⟩
    · intro path hpath hbegins
      obtain ⟨c, -, hpath⟩ := List.mem_flatMap.1 hpath
      obtain ⟨later, -, rfl⟩ := List.mem_map.1 hpath
      exact List.cons_ne_nil _ _ (List.prefix_nil.1 hbegins)
    · intro c hc
      refine List.pairwise_map.2 ((hlists c hc).ordered.imp fun hnot hbegins => ?_)
      exact hnot (List.cons_prefix_cons.1 hbegins).2
    -- paths that go on from different children do not begin alike
    · have hplaces : ns.zipIdx.Pairwise fun c d => c.2 < d.2 := by
        rw [← List.pairwise_map, List.zipIdx_map_snd]
        exact List.pairwise_lt_range'
      refine hplaces.imp fun hlt path hpath path' hpath' hbegins => ?_
      obtain ⟨later, -, rfl⟩ := List.mem_map.1 hpath
      obtain ⟨later', -, rfl⟩ := List.mem_map.1 hpath'
      exact Nat.ne_of_gt hlt (List.cons_prefix_cons.1 hbegins).1

/-- A walk over a tree meets what stands at the end of each path, in preorder. -/
theorem Node.IsTree.exists_lists {n : Node} (h : n.IsTree) :
    ∃ paths, n.Lists paths (Value.node n).walk.nodes := by
  obtain ⟨ns, hchildren⟩ := h n .refl
  have hbelow : ∀ c ∈ ns, ∃ paths, c.Lists paths (Value.node c).walk.nodes := fun c hc =>
    have hmem : Value.node c ∈ n.children := hchildren ▸ List.mem_map_of_mem hc
    (h.of_mem_children hmem).exists_lists
  choose! paths hpaths using hbelow
  rw [h.walk_eq hchildren]
  exact ⟨_, .node hchildren hpaths⟩
termination_by n.size
decreasing_by exact size_lt_of_mem_children hmem

/-! ## Walks over trees -/

/-- A walk over a tree is over after as many rounds as it meets nodes, and then nothing is left on
the stack. It meets the root, followed by what the walks over the children meet, one after the other:
the node at the end of each path once, and before all that are further down. -/
theorem walk_preorder {n : Node} (h : n.IsTree) :
    ∃ ns : List Node, n.children = ns.map .node ∧
      (Value.node n).walk = ⟨n :: ns.flatMap fun c => (Value.node c).walk.nodes, none⟩ ∧
      Visiting.rounds (Value.node n).walk.nodes.length (.start (.node n)) =
        some ⟨[], (Value.node n).walk.nodes⟩ ∧
      ∃ paths, n.Lists paths (Value.node n).walk.nodes := by
  obtain ⟨ns, hchildren⟩ := h n .refl
  have hwalk := h.walk_eq hchildren
  obtain ⟨⟨pending, met⟩, hrounds, hmet, hobstacle, -⟩ := rounds_visit [.node n] []
  obtain rfl : met = (Value.node n).walk.nodes := hmet
  -- nothing is on top of a stack without an obstacle
  obtain rfl : pending = [] := by
    rw [← List.getLast?_eq_none_iff]
    exact hobstacle.trans (congrArg Walk.obstacle hwalk)
  exact ⟨ns, hchildren, hwalk, hrounds, h.exists_lists⟩

/-- A node of a type that the library does not know, with a tuple that holds `n` twice and what is
no node in between. -/
def foreignNode (n : Node) : Node :=
  ⟨.foreign "Extra" ["tag", "items"], none, [.text "x", .tuple [.node n, .whole 1, .node n]]⟩

/-- A walk meets a node as often as it stands in the tree. -/
theorem walk_preorder_foreign : (foreignNode (.identifier none (.text "a"))).IsTree ∧
    Visiting.rounds 3 (.start (.node (foreignNode (.identifier none (.text "a"))))) =
      some ⟨[], [foreignNode (.identifier none (.text "a")), .identifier none (.text "a"),
        .identifier none (.text "a")]⟩ := by
  have hleaf : (Node.identifier none (.text "a")).IsTree :=
    .of_children_eq_nil rfl
  have hchildren : (foreignNode (.identifier none (.text "a"))).children =
      [.identifier none (.text "a"), .identifier none (.text "a")].map .node := rfl
  have htree : (foreignNode (.identifier none (.text "a"))).IsTree :=
    .intro hchildren (by simp [hleaf])
  obtain ⟨_, hnone, hwalk, -⟩ := walk_preorder hleaf
  obtain rfl := List.map_eq_nil_iff.1 hnone.symm
  obtain ⟨ns, hsame, hwalks, hrounds, -⟩ := walk_preorder htree
  obtain rfl := List.map_injective_iff.2 (fun _ _ => Value.node.inj) (hsame.symm.trans hchildren)
  rw [hwalks] at hrounds
  simp only [List.flatMap_cons, List.flatMap_nil, hwalk] at hrounds
  exact ⟨htree, hrounds⟩

end Spruce
