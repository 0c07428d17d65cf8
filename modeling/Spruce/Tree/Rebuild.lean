import Spruce.Tree.Traversal

set_option autoImplicit false

/-!
# Rebuilding trees

A tree is rebuilt by putting other values in the place of some of its nodes. Nodes
are offered to a replacement before what is under them; where the replacement gives
a value, that value is taken as it stands, and where it gives none, the node keeps
its place with its fields rebuilt. A field is rebuilt if it is a node, and if it is
a tuple, then the nodes among its elements are. A node or tuple in which nothing
changed is the one of the given tree and no copy.

Main definitions: `Replacement`, what a replacement gives; `Sharing`, which says
what of the result belongs to the given tree; `Node.rebuildM` and `Node.rebuild`;
and `Rebuilt.shared`, which looks the sharing up along a walk.
-/

namespace Spruce

/-! ## Replacements and sharing -/

/-- What takes the place of a node. -/
inductive Replacement where
  /-- The node itself, so that nothing under it changes. -/
  | keep
  /-- Another part of the given tree. -/
  | existing (v : Value)
  /-- A value made for the purpose. -/
  | fresh (v : Value)

/-- Where a value in a rebuilt tree comes from. What is not a copy comes whole from
one place. -/
inductive Sharing where
  /-- From the given tree, where it stood. -/
  | kept
  /-- From another place of the given tree. -/
  | moved
  /-- From a replacement that made it. -/
  | built
  /-- From the given tree, but copied, as some of its parts changed: the fields of a
  node, or the elements of a tuple. -/
  | copied (parts : List Sharing)

namespace Sharing

/-- The value still stands where it stood. -/
def isKept : Sharing → Bool
  | kept => true
  | _ => false

/-- The value is one of the given tree and no copy. -/
def isGiven : Sharing → Bool
  | kept | moved => true
  | built | copied _ => false

/-- Where the parts of the value come from, of which there are `count`. -/
def parts (count : Nat) : Sharing → List Sharing
  | copied parts => parts
  | s => List.replicate count s

end Sharing

/-- A rebuilt value, and where it and its parts come from. -/
structure Rebuilt where
  value : Value
  sharing : Sharing

namespace Rebuilt

/-- A value that nothing was done to. -/
def same (v : Value) : Rebuilt := ⟨v, .kept⟩

/-- The replacement in the place of the node `n`. -/
def settle (n : Node) : Replacement → Rebuilt
  | .keep => same (.node n)
  | .existing v => ⟨v, .moved⟩
  | .fresh v => ⟨v, .built⟩

/-- The value `whole` with rebuilt parts: `whole` itself when each part still stands
where it stood, and otherwise a copy, which `refill` makes of other parts. -/
def assemble (whole : Value) (refill : List Value → Value) (parts : List Rebuilt) : Rebuilt :=
  if parts.all fun part => part.sharing.isKept then same whole
  else ⟨refill (parts.map Rebuilt.value), .copied (parts.map Rebuilt.sharing)⟩

end Rebuilt

/-! ## Rebuilding -/

section Rebuilding

variable {m : Type → Type} [Monad m] (replacement : Node → m (Option Replacement))

mutual

/-- The tree of a node with the replacements that `replacement` gives. Nodes are
offered to it in preorder, and nothing under a replaced node is. -/
def Node.rebuildM : Node → m Rebuilt
  | ⟨type, span, fields⟩ => do
      match ← replacement ⟨type, span, fields⟩ with
      | some r => pure (Rebuilt.settle ⟨type, span, fields⟩ r)
      | none => do
          let parts ← rebuildFieldsM fields
          let refill := fun vs => Value.node ⟨type, span, vs⟩
          pure (Rebuilt.assemble (refill fields) refill parts)
termination_by structural n => n

/-- The contents of a field with replacements. -/
def Value.rebuildFieldM : Value → m Rebuilt
  | .node n => n.rebuildM
  | .sequence .tuple items => do
      let parts ← rebuildElementsM items
      pure (Rebuilt.assemble (.tuple items) .tuple parts)
  | v => pure (Rebuilt.same v)
termination_by structural v => v

/-- The contents of some fields with replacements. -/
def rebuildFieldsM : List Value → m (List Rebuilt)
  | [] => pure []
  | v :: vs => do
      let part ← v.rebuildFieldM
      pure (part :: (← rebuildFieldsM vs))
termination_by structural vs => vs

/-- An element of a tuple with replacements, if it is a node. -/
def Value.rebuildElementM : Value → m Rebuilt
  | .node n => n.rebuildM
  | v => pure (Rebuilt.same v)
termination_by structural v => v

/-- The elements of a tuple with replacements. -/
def rebuildElementsM : List Value → m (List Rebuilt)
  | [] => pure []
  | v :: vs => do
      let part ← v.rebuildElementM
      pure (part :: (← rebuildElementsM vs))
termination_by structural vs => vs

end

end Rebuilding

/-- The tree of `n` with the replacements that `replacement` gives, and the nodes
that were offered to it, in order. -/
def Node.rebuild (replacement : Node → Option Replacement) (n : Node) : Rebuilt × List Node :=
  let offer : Node → StateM (List Node) (Option Replacement) := fun n => do
    modify (n :: ·)
    pure (replacement n)
  let (result, offered) := (n.rebuildM offer).run []
  (result, offered.reverse)

/-! ## Sharing along a walk -/

/-- The children that a field with the given contents has, and where each comes from
when `s` says it of the contents. -/
def FieldRole.originsIn (v : Value) (s : Sharing) : FieldRole → List (Value × Sharing)
  | label => []
  | child => [(v, s)]
  | optionalChild =>
      match v with
      | .absent => []
      | v => [(v, s)]
  | children => v.elements.zip (s.parts v.elements.length)
  | anything =>
      match v with
      | .node n => [(.node n, s)]
      | .sequence .tuple items =>
          (items.zip (s.parts items.length)).filter fun part => part.1.node?.isSome
      | _ => []

/-- The children of a node, and where each comes from when `s` says it of the
node. -/
def Node.origins (n : Node) (s : Sharing) : List (Value × Sharing) :=
  (n.type.fields.zip (n.fields.zip (s.parts n.fields.length))).flatMap fun f =>
    f.1.role.originsIn f.2.1 f.2.2

theorem sizeAll_zip_le (vs : List Value) (ss : List Sharing) :
    sizeAll ((vs.zip ss).map Prod.fst) ≤ sizeAll vs := by
  induction vs generalizing ss with
  | nil => simp [sizeAll]
  | cons v vs ih =>
      cases ss with
      | nil => simp [sizeAll]
      | cons s ss =>
          have := ih ss
          simp only [List.zip_cons_cons, List.map_cons, sizeAll]
          omega

theorem sizeAll_zip_filter_le (p : Value → Bool) (vs : List Value) (ss : List Sharing) :
    sizeAll (((vs.zip ss).filter fun part => p part.1).map Prod.fst) ≤ sizeAll vs := by
  have h : ((vs.zip ss).filter fun part => p part.1).map Prod.fst
      = ((vs.zip ss).map Prod.fst).filter p := by
    rw [List.filter_map]
    rfl
  rw [h]
  exact Nat.le_trans (sizeAll_filter_le p _) (sizeAll_zip_le vs ss)

theorem sizeAll_originsIn_le (v : Value) (s : Sharing) (role : FieldRole) :
    sizeAll ((role.originsIn v s).map Prod.fst) ≤ v.size := by
  cases role with
  | label => simp [FieldRole.originsIn, sizeAll]
  | child => simp [FieldRole.originsIn, sizeAll]
  | optionalChild => cases v <;> simp [FieldRole.originsIn, sizeAll]
  | children => exact Nat.le_trans (sizeAll_zip_le _ _) (sizeAll_elements_le v)
  | anything =>
      simp only [FieldRole.originsIn]
      split
      · simp [sizeAll]
      · simpa only [Value.size] using sizeAll_zip_filter_le (fun v => v.node?.isSome) _ _
      · simp [sizeAll]

/-- The children of a node are together smaller than the node, with origins too. -/
theorem size_origins_lt (n : Node) (s : Sharing) :
    sizeAll ((n.origins s).map Prod.fst) < n.size := by
  suffices h : ∀ (shapes : List FieldShape) (vs : List Value) (ss : List Sharing),
      sizeAll (((shapes.zip (vs.zip ss)).flatMap fun f =>
        f.1.role.originsIn f.2.1 f.2.2).map Prod.fst) ≤ sizeAll vs by
    have := h n.type.fields n.fields (s.parts n.fields.length)
    rw [Node.size_eq]
    unfold Node.origins
    omega
  intro shapes
  induction shapes with
  | nil => simp [sizeAll]
  | cons shape shapes ih =>
      intro vs ss
      cases vs with
      | nil => simp [sizeAll]
      | cons v vs =>
          cases ss with
          | nil => simp [sizeAll]
          | cons s ss =>
              have := ih vs ss
              have := sizeAll_originsIn_le v s shape.role
              simp only [List.zip_cons_cons, List.flatMap_cons, List.map_append, sizeAll_append,
                sizeAll]
              omega

/-- For each node that a walk over the values on a stack meets, whether it is one of
the given tree. -/
def visitShared : (stack : List (Value × Sharing)) → List Bool
  | [] => []
  | (.node n, s) :: stack => s.isGiven :: visitShared (n.origins s ++ stack)
  | _ :: _ => []
termination_by stack => sizeAll (stack.map Prod.fst)
decreasing_by
  have := size_origins_lt n s
  simp only [List.map_append, List.map_cons, sizeAll, sizeAll_append, Value.size]
  omega

/-- For each node that a walk over a rebuilt value meets, whether it is one of the
given tree. -/
def Rebuilt.shared (r : Rebuilt) : List Bool := visitShared [(r.value, r.sharing)]

end Spruce
