import Mathlib.Logic.Function.Basic
import Spruce.Proofs.Tree.Occurrences

set_option autoImplicit false

/-!
# Rebuilding as substitution in preorder

A replacement may keep a state, so that what it answers for a node can depend on all it was asked
before. Whatever it does, a run of rebuilding is told by its replies to the nodes that were offered:
these are offered in preorder, those below a replaced node left out, and the result is the tree with
the replies in the places of the nodes (`rebuildM_preorder`).

Main definitions: `Node.substituteBy`, the tree for given replies; `Node.rebuiltBy`, that tree
together with its sharing; and `recorded`, a replacement that keeps a record of its offers.
-/

namespace Spruce

/-! ## Substitution by path -/

mutual

/-- What stands in the place of a node when the replies are these: what it is replaced by, taken as
it stands, or the node with what stands in the places of the nodes in its fields. -/
def Node.substituteBy (replies : Replies) : Node → Value
  | ⟨type, span, fields⟩ =>
      match replies [] ⟨type, span, fields⟩ with
      | some r => (Rebuilt.settle ⟨type, span, fields⟩ r).value
      | none => .node ⟨type, span, substituteAmong .field replies 0 fields⟩
termination_by structural n => n

/-- What stands in the place of a value that a field or tuple holds. -/
def Value.substituteIn (holder : Holder) (replies : Replies) : Value → Value
  | .node n => n.substituteBy replies
  | .sequence .tuple items =>
      match holder with
      | .field => .tuple (substituteAmong .tuple replies 0 items)
      | .tuple => .tuple items
  | v => v
termination_by structural v => v

/-- What stands in the places of the fields or elements from the `i`-th on. -/
def substituteAmong (holder : Holder) (replies : Replies) (i : Nat) : List Value → List Value
  | [] => []
  | v :: vs =>
      v.substituteIn holder (replies.below i) :: substituteAmong holder replies (i + 1) vs
termination_by structural vs => vs

end

mutual

/-- The tree of a node when the replies are these, and what of it belongs to the given tree. -/
def Node.rebuiltBy (replies : Replies) : Node → Rebuilt
  | ⟨type, span, fields⟩ =>
      match replies [] ⟨type, span, fields⟩ with
      | some r => Rebuilt.settle ⟨type, span, fields⟩ r
      | none =>
          let refill := fun vs => Value.node ⟨type, span, vs⟩
          Rebuilt.assemble (refill fields) refill (rebuiltAmong .field replies 0 fields)
termination_by structural n => n

/-- A value that a field or tuple holds, when the replies are these. -/
def Value.rebuiltIn (holder : Holder) (replies : Replies) : Value → Rebuilt
  | .node n => n.rebuiltBy replies
  | .sequence .tuple items =>
      match holder with
      | .field => Rebuilt.assemble (.tuple items) .tuple (rebuiltAmong .tuple replies 0 items)
      | .tuple => Rebuilt.same (.tuple items)
  | v => Rebuilt.same v
termination_by structural v => v

/-- The fields or elements from the `i`-th on, when the replies are these. -/
def rebuiltAmong (holder : Holder) (replies : Replies) (i : Nat) : List Value → List Rebuilt
  | [] => []
  | v :: vs => v.rebuiltIn holder (replies.below i) :: rebuiltAmong holder replies (i + 1) vs
termination_by structural vs => vs

end

mutual

/-- The rebuilt tree is the one with the replies in the places of the nodes. -/
theorem Node.rebuiltAs_rebuiltBy (replies : Replies) : (n : Node) →
    RebuiltAs (.node n) (n.substituteBy replies) (.ok (n.rebuiltBy replies))
  | ⟨type, span, fields⟩ => by
      rw [Node.rebuiltBy, Node.substituteBy]
      cases replies [] ⟨type, span, fields⟩ with
      | some r => exact rebuiltAs_settle _ r
      | none =>
          have hparts := allRebuiltAs_rebuiltAmong .field replies 0 fields
          exact hparts.assemble (x := pure _) fun vs => .node ⟨type, span, vs⟩
termination_by structural n => n

theorem Value.rebuiltAs_rebuiltIn (holder : Holder) (replies : Replies) : (v : Value) →
    RebuiltAs v (v.substituteIn holder replies) (.ok (v.rebuiltIn holder replies))
  | .node n => n.rebuiltAs_rebuiltBy replies
  | .sequence .tuple items => by
      cases holder with
      | field =>
          have hparts := allRebuiltAs_rebuiltAmong .tuple replies 0 items
          exact hparts.assemble (x := pure _) .tuple
      | tuple => exact rebuiltAs_same _
  | .sequence .list _ | .absent | .truth _ | .whole _ | .real _ | .text _ | .operator _
  | .operation _ | .targetKind _ | .fragment _ _ => rebuiltAs_same _
termination_by structural v => v

theorem allRebuiltAs_rebuiltAmong (holder : Holder) (replies : Replies) (i : Nat) :
    (vs : List Value) → AllRebuiltAs vs (substituteAmong holder replies i vs)
      (.ok (rebuiltAmong holder replies i vs))
  | [] => allRebuiltAs_nil
  | v :: vs => by
      have hfirst := v.rebuiltAs_rebuiltIn holder (replies.below i)
      have hlater : AllRebuiltAs vs (substituteAmong holder replies (i + 1) vs)
          (pure (rebuiltAmong holder replies (i + 1) vs) : Diagnosed Fault _).outcome :=
        allRebuiltAs_rebuiltAmong holder replies (i + 1) vs
      exact hfirst.cons (x := pure _) hlater
termination_by structural vs => vs

end

theorem value_rebuiltBy (replies : Replies) (n : Node) :
    (n.rebuiltBy replies).value = n.substituteBy replies := by
  obtain ⟨r, hr, hvalue, -⟩ := n.rebuiltAs_rebuiltBy replies
  rw [Except.ok.inj hr, hvalue]

/-! ## Offers -/

/-- A node that was offered for replacement, and what was answered. -/
structure Offer where
  node : Node
  answer : Option Replacement

/-- The offer of the node at an occurrence, when the replies are these. -/
def Occurrence.offer (replies : Replies) (p : Occurrence) : Offer := ⟨p.node, replies p.path p.node⟩

theorem Occurrence.offer_under (replies : Replies) (i : Nat) (p : Occurrence) :
    (p.under i).offer replies = p.offer (replies.below i) := rfl

section

variable {σ α β : Type}

/-- A replacement that keeps a record of what it was asked and answered. -/
def recorded (replacement : Node → StateM σ (Option Replacement)) (n : Node) :
    StateM (σ × List Offer) (Option Replacement) := fun s =>
  let (answer, later) := (replacement n).run s.1
  (answer, later, s.2 ++ [⟨n, answer⟩])

/-- Work that keeps a record goes from the state `s` to `s'` with the given result, and the given
offers are recorded on the way. -/
def Yields (x : StateM (σ × List Offer) α) (s s' : σ) (result : α) (offers : List Offer) : Prop :=
  ∀ earlier, x.run (s, earlier) = (result, s', earlier ++ offers)

theorem Yields.pure (s : σ) (a : α) : Yields (Pure.pure a) s s a [] := by
  intro earlier
  rw [List.append_nil]
  rfl

theorem Yields.bind {x : StateM (σ × List Offer) α} {f : α → StateM (σ × List Offer) β}
    {s s' s'' : σ} {a : α} {b : β} {offers offers' : List Offer} (hx : Yields x s s' a offers)
    (hf : Yields (f a) s' s'' b offers') : Yields (x >>= f) s s'' b (offers ++ offers') := by
  intro earlier
  rw [StateT.run_bind, hx earlier, ← List.append_assoc]
  exact hf _

/-- Work on a result records no offers. -/
theorem Yields.bind_pure {x : StateM (σ × List Offer) α} {s s' : σ} {a : α} {offers : List Offer}
    (hx : Yields x s s' a offers) (f : α → β) :
    Yields (x >>= fun a => Pure.pure (f a)) s s' (f a) offers := by
  have hbind := hx.bind (f := fun a => Pure.pure (f a)) (.pure s' (f a))
  rw [List.append_nil] at hbind
  exact hbind

theorem yields_recorded (replacement : Node → StateM σ (Option Replacement)) (n : Node) (s : σ) :
    Yields (recorded replacement n) s ((replacement n).run s).2 ((replacement n).run s).1
      [⟨n, ((replacement n).run s).1⟩] := fun _ => rfl

end

/-! ## Replies put together -/

namespace Replies

/-- The same replies, but with `answer` for the root. -/
def withRoot (replies : Replies) (answer : Option Replacement) : Replies
  | [], _ => answer
  | i :: path, n => replies (i :: path) n

/-- The same replies, but with `first` for what stands under the `i`-th field or element. -/
def withPart (replies : Replies) (i : Nat) (first : Replies) : Replies
  | [], n => replies [] n
  | j :: path, n => if j = i then first path n else replies (j :: path) n

theorem below_withPart_self (replies : Replies) (i : Nat) (first : Replies) :
    (replies.withPart i first).below i = first := by
  funext path n
  exact if_pos rfl

theorem below_withPart_of_lt (replies : Replies) (first : Replies) {i j : Nat} (h : i + 1 ≤ j) :
    (replies.withPart i first).below j = replies.below j := by
  funext path n
  exact if_neg (Nat.ne_of_gt h)

end Replies

section

variable {replies replies' : Replies} {i : Nat}

theorem offeredAmong_congr (holder : Holder)
    (h : ∀ j, i ≤ j → replies.below j = replies'.below j) (vs : List Value) :
    offeredAmong holder replies i vs = offeredAmong holder replies' i vs := by
  induction vs generalizing i with
  | nil => rfl
  | cons v vs ih =>
      rw [offeredAmong, offeredAmong, h i (Nat.le_refl i),
        ih fun j hj => h j (Nat.le_of_succ_le hj)]

theorem rebuiltAmong_congr (holder : Holder)
    (h : ∀ j, i ≤ j → replies.below j = replies'.below j) (vs : List Value) :
    rebuiltAmong holder replies i vs = rebuiltAmong holder replies' i vs := by
  induction vs generalizing i with
  | nil => rfl
  | cons v vs ih =>
      rw [rebuiltAmong, rebuiltAmong, h i (Nat.le_refl i),
        ih fun j hj => h j (Nat.le_of_succ_le hj)]

theorem map_offer_congr (h : ∀ j, i ≤ j → replies.below j = replies'.below j)
    {ps : List Occurrence} (hps : AllUnder i ps) :
    ps.map (Occurrence.offer replies) = ps.map (Occurrence.offer replies') := by
  refine List.map_congr_left fun p hp => ?_
  obtain ⟨j, q, hj, rfl⟩ := hps p hp
  rw [Occurrence.offer_under, Occurrence.offer_under, h j hj]

theorem map_offer_under (replies : Replies) (i : Nat) (ps : List Occurrence) :
    (ps.map (Occurrence.under i)).map (Occurrence.offer replies) =
      ps.map (Occurrence.offer (replies.below i)) := by
  rw [List.map_map]
  rfl

end

/-! ## Runs -/

section

variable {m : Type → Type} [Monad m] (replacement : Node → m (Option Replacement))

/-- A value that a field or tuple holds, with replacements. -/
def Value.rebuildInM (holder : Holder) (v : Value) : m Rebuilt :=
  match holder with
  | .field => v.rebuildFieldM replacement
  | .tuple => v.rebuildElementM replacement

/-- The values that a field or tuple holds, with replacements. -/
def rebuildAmongM (holder : Holder) (vs : List Value) : m (List Rebuilt) :=
  match holder with
  | .field => rebuildFieldsM replacement vs
  | .tuple => rebuildElementsM replacement vs

theorem rebuildAmongM_nil (holder : Holder) :
    rebuildAmongM replacement holder [] = pure [] := by
  cases holder <;> rfl

theorem rebuildAmongM_cons (holder : Holder) (v : Value) (vs : List Value) :
    rebuildAmongM replacement holder (v :: vs) = (do
      let part ← v.rebuildInM replacement holder
      let parts ← rebuildAmongM replacement holder vs
      pure (part :: parts)) := by
  cases holder <;> rfl

theorem Value.rebuildInM_node (holder : Holder) (n : Node) :
    (Value.node n).rebuildInM replacement holder = n.rebuildM replacement := by
  cases holder <;> rfl

end

section

variable {σ : Type} (replacement : Node → StateM σ (Option Replacement))

mutual

/-- A run of rebuilding is told by its replies to the nodes that are offered. -/
theorem Node.exists_replies : (n : Node) → (s : σ) → ∃ replies s',
    Yields (n.rebuildM (recorded replacement)) s s' (n.rebuiltBy replies)
      ((n.offered replies).map (Occurrence.offer replies))
  | ⟨type, span, fields⟩, s => by
      have hroot := yields_recorded replacement ⟨type, span, fields⟩ s
      cases hanswer : ((replacement ⟨type, span, fields⟩).run s).1 with
      | some r =>
          -- nothing below a node that is replaced is offered, so its answer is the only reply
          rw [hanswer] at hroot
          exact ⟨Replies.none.withRoot (some r), _, hroot.bind (.pure _ _)⟩
      | none =>
          rw [hanswer] at hroot
          obtain ⟨replies, s', hfields⟩ := exists_replies_among .field fields 0
            ((replacement ⟨type, span, fields⟩).run s).2
          have hbelow : ∀ j, 0 ≤ j → (replies.withRoot none).below j = replies.below j :=
            fun _ _ => rfl
          rw [← rebuiltAmong_congr .field hbelow, ← offeredAmong_congr .field hbelow,
            ← map_offer_congr hbelow (allUnder_offeredAmong _ _ _ _)] at hfields
          exact ⟨replies.withRoot none, s', hroot.bind (hfields.bind_pure _)⟩
termination_by structural n => n

theorem Value.exists_replies_in (holder : Holder) : (v : Value) → (s : σ) → ∃ replies s',
    Yields (v.rebuildInM (recorded replacement) holder) s s' (v.rebuiltIn holder replies)
      ((v.offeredIn holder replies).map (Occurrence.offer replies))
  | .node n, s => by
      rw [Value.rebuildInM_node]
      exact n.exists_replies s
  | .sequence .tuple items, s => by
      cases holder with
      | field =>
          obtain ⟨replies, s', hitems⟩ := exists_replies_among .tuple items 0 s
          exact ⟨replies, s', hitems.bind_pure _⟩
      | tuple => exact ⟨.none, s, .pure s _⟩
  | .sequence .list _, s | .absent, s | .truth _, s | .whole _, s | .real _, s | .text _, s
  | .operator _, s | .operation _, s | .targetKind _, s | .fragment _ _, s => by
      refine ⟨.none, s, ?_⟩
      cases holder <;> exact .pure s _
termination_by structural v => v

theorem exists_replies_among (holder : Holder) : (vs : List Value) → (i : Nat) → (s : σ) →
    ∃ replies s', Yields (rebuildAmongM (recorded replacement) holder vs) s s'
      (rebuiltAmong holder replies i vs)
      ((offeredAmong holder replies i vs).map (Occurrence.offer replies))
  | [], _, s => by
      refine ⟨.none, s, ?_⟩
      rw [rebuildAmongM_nil]
      exact .pure s _
  | v :: vs, i, s => by
      obtain ⟨first, s', hfirst⟩ := v.exists_replies_in holder s
      obtain ⟨later, s'', hlater⟩ := exists_replies_among holder vs (i + 1) s'
      -- what stands under the first value and under later ones has different paths, so that the
      -- replies for both can be put together
      have hbelow : ∀ j, i + 1 ≤ j → (later.withPart i first).below j = later.below j :=
        fun j hj => later.below_withPart_of_lt first hj
      refine ⟨later.withPart i first, s'', ?_⟩
      rw [rebuildAmongM_cons, rebuiltAmong, offeredAmong, List.map_append, map_offer_under,
        Replies.below_withPart_self, rebuiltAmong_congr holder hbelow,
        offeredAmong_congr holder hbelow,
        map_offer_congr hbelow (allUnder_offeredAmong _ _ _ _)]
      exact hfirst.bind (hlater.bind_pure _)
termination_by structural vs => vs

end

end

/-- Rebuilding is substitution in preorder. Whatever a replacement does with what it was asked
before, the nodes of a tree that it is asked about are, in order, those that a walk over the tree
meets and above which nothing was replaced; the result is the tree with its replies in the places of
these nodes, and all else as it was. If it never gives a replacement, it is asked about all nodes of
the walk. -/
theorem rebuildM_preorder {σ : Type} (replacement : Node → StateM σ (Option Replacement)) (s : σ)
    (n : Node) (h : n.IsFittedTree) :
    ∃ (replies : Replies) (result : Rebuilt) (s' : σ) (offers : List Offer),
      (n.rebuildM (recorded replacement)).run (s, []) = (result, s', offers) ∧
      (Value.node n).walk = ⟨n.occurrences.map Occurrence.node, none⟩ ∧
      (∀ p ∈ n.occurrences, (Value.node n).at? p.path = some (.node p.node)) ∧
      offers = (n.occurrences.filter (·.IsReached replies n.occurrences)).map
        (Occurrence.offer replies) ∧
      result.value = n.substituteBy replies ∧
      ((∀ o ∈ offers, o.answer = none) →
        offers.map Offer.node = (Value.node n).walk.nodes) := by
  obtain ⟨replies, s', hrun⟩ := n.exists_replies replacement s
  refine ⟨replies, _, s', _, hrun [], h.walk_eq, ?_, ?_, value_rebuiltBy replies n, ?_⟩
  · intro p hp
    have hmem : p ∈ (Value.node n).offeredIn .field .none := hp
    exact at?_of_mem_offeredIn hmem
  · rw [List.nil_append, n.offered_eq_filter]
  · intro hnone
    have hall : n.offered replies = n.occurrences := Node.offered_eq_occurrences fun p hp =>
      hnone _ (List.mem_map_of_mem hp)
    rw [List.nil_append, hall, h.walk_eq, List.map_map]
    rfl

/-- The sum of `left` and `right`. -/
def sumOf (left right : Node) : Node := .binary none (.operation .add) (.node left) (.node right)

/-- A replacement that counts what it was asked, and at the second time gives the name `z`. -/
def secondReplaced (_ : Node) : StateM Nat (Option Replacement) := do
  let asked ← get
  set (asked + 1)
  pure (if asked = 1 then some (.fresh (.node (.identifier none (.text "z")))) else none)

theorem isFittedTree_sumOf {left right : Node} (hleft : left.IsFittedTree)
    (hright : right.IsFittedTree) : (sumOf left right).IsFittedTree := by
  have hchildren : (sumOf left right).children = [left, right].map .node := rfl
  refine Node.forall_has hchildren ?_ ?_
  · exact .cons trivial (.cons trivial (.cons trivial .nil))
  · exact List.forall_mem_cons.2 ⟨hleft, List.forall_mem_singleton.2 hright⟩

theorem isFittedTree_name (s : String) :
    (Node.identifier none (.text s)).IsFittedTree := by
  intro m hm
  obtain rfl := Node.eq_of_has rfl hm
  exact .cons rfl .nil

/-- If in `x + y` the second node that is asked about is replaced, that is `x`. -/
theorem rebuildM_preorder_second :
    ∃ (replies : Replies) (result : Rebuilt) (s' : Nat) (offers : List Offer),
      ((sumOf (.identifier none (.text "x")) (.identifier none (.text "y"))).rebuildM
        (recorded secondReplaced)).run (0, []) = (result, s', offers) ∧
      result.value = (sumOf (.identifier none (.text "x"))
        (.identifier none (.text "y"))).substituteBy replies ∧
      result.value = .node (sumOf (.identifier none (.text "z")) (.identifier none (.text "y"))) ∧
      s' = 3 := by
  obtain ⟨replies, result, s', offers, hrun, -, -, -, hvalue, -⟩ :=
    rebuildM_preorder secondReplaced 0 _
      (isFittedTree_sumOf (isFittedTree_name "x") (isFittedTree_name "y"))
  refine ⟨replies, result, s', offers, hrun, hvalue, ?_, ?_⟩
  · exact (congrArg (fun out => out.1.value) hrun).symm
  · exact (congrArg (fun out => out.2.1) hrun).symm

end Spruce
