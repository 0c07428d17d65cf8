import Spruce.Proofs.Tree.Rebuilding

set_option autoImplicit false

/-!
# What a rebuilt tree shares with the given one

In a tree each node of which is an object of its own, the object of a node is told by its path. A
node that was offered and not replaced is the same object in the result, at the same path, if every
offer below it was declined or answered by the very node, and otherwise it is a copy
(`rebuildM_sharing`). Where a replacement comes from makes no difference to that, be it made for the
purpose or another part of the given tree.

Main definitions: `Sharing.at`, and `Offer.IsQuiet` for offers that leave the tree as it is.
-/

namespace Spruce

/-! ## Sharing by path -/

/-- Where the `i`-th part of a value comes from. -/
def Sharing.part : Sharing → Nat → Sharing
  | copied parts, i => parts.getD i .kept
  | s, _ => s

/-- Where what stands at the end of a path comes from. -/
def Sharing.at (s : Sharing) (path : List Nat) : Sharing := path.foldl Sharing.part s

theorem Sharing.isKept_iff {s : Sharing} : s.isKept = true ↔ s = .kept := by
  cases s <;> simp [isKept]

/-- The replies for what stands below the end of a path. -/
def Replies.from (replies : Replies) (path : List Nat) : Replies := fun later =>
  replies (path ++ later)

section

variable {holder holder' : Holder} {replies : Replies} {v : Value}

/-- A value in which nodes are offered is put together again from its rebuilt parts. -/
theorem rebuiltIn_of_opened (h : v.opened holder replies = some holder') :
    ∃ refill : List Value → Value, v = refill v.parts ∧ (∀ vs, (refill vs).parts = vs) ∧
      v.rebuiltIn holder replies = Rebuilt.assemble (refill v.parts) refill
        (rebuiltAmong holder' replies 0 v.parts) := by
  cases v with
  | node n =>
      obtain ⟨type, span, fields⟩ := n
      refine ⟨fun vs => .node ⟨type, span, vs⟩, rfl, fun _ => rfl, ?_⟩
      rw [Value.opened] at h
      show Node.rebuiltBy replies ⟨type, span, fields⟩ = _
      rw [Node.rebuiltBy]
      cases hroot : replies [] ⟨type, span, fields⟩ with
      | some r =>
          rw [hroot] at h
          exact absurd h (Option.some_ne_none _).symm
      | none =>
          rw [hroot] at h
          obtain rfl := Option.some.inj h
          rfl
  | sequence kind items =>
      cases kind with
      | list => exact absurd h (Option.some_ne_none _).symm
      | tuple =>
          cases holder with
          | tuple => exact absurd h (Option.some_ne_none _).symm
          | field =>
              obtain rfl := Option.some.inj h
              exact ⟨.tuple, rfl, fun _ => rfl, rfl⟩
  | _ => exact absurd h (Option.some_ne_none _).symm

theorem getElem?_rebuiltAmong (i : Nat) (vs : List Value) (j : Nat) :
    (rebuiltAmong holder replies i vs)[j]? =
      vs[j]?.map fun v => v.rebuiltIn holder (replies.below (i + j)) := by
  induction vs generalizing i j with
  | nil => rfl
  | cons v vs ih =>
      cases j with
      | zero => rfl
      | succ j =>
          rw [rebuiltAmong, List.getElem?_cons_succ, ih, List.getElem?_cons_succ, ← Nat.add_assoc,
            Nat.add_right_comm]

/-- The parts of a value that is put together from rebuilt parts are these, whether it is a copy or
not. -/
theorem AllRebuiltAs.assemble_part {vs ws : List Value} {rs : List Rebuilt}
    (h : AllRebuiltAs vs ws (.ok rs)) {refill : List Value → Value}
    (hrefill : ∀ vs, (refill vs).parts = vs) {i : Nat} {r : Rebuilt} (hr : rs[i]? = some r) :
    (Rebuilt.assemble (refill vs) refill rs).value.parts[i]? = some r.value ∧
      (Rebuilt.assemble (refill vs) refill rs).sharing.part i = r.sharing := by
  obtain ⟨rs', hrs, rfl, hkept⟩ := h
  obtain rfl := Except.ok.inj hrs
  have hvalue : (rs.map Rebuilt.value)[i]? = some r.value := by rw [List.getElem?_map, hr]; rfl
  rw [Rebuilt.assemble]
  split
  · next hall =>
      refine ⟨?_, ?_⟩
      · rw [Rebuilt.same, hrefill, ← hkept hall]
        exact hvalue
      · have hsame := List.all_eq_true.1 hall r (List.mem_of_getElem? hr)
        exact (Sharing.isKept_iff.1 hsame).symm
  · refine ⟨?_, ?_⟩
    · rw [hrefill]
      exact hvalue
    · show (rs.map Rebuilt.sharing).getD i .kept = r.sharing
      rw [List.getD_eq_getElem?_getD, List.getElem?_map, hr]
      rfl

/-- At the end of the path to a node that is offered stands, in the rebuilt value, that node
rebuilt. -/
theorem rebuiltIn_at {p : Occurrence} (h : p ∈ v.offeredIn holder replies) :
    (v.rebuiltIn holder replies).value.at? p.path =
        some (p.node.rebuiltBy (replies.from p.path)).value ∧
      (v.rebuiltIn holder replies).sharing.at p.path =
        (p.node.rebuiltBy (replies.from p.path)).sharing := by
  -- by induction on the path, whose first step picks a part and whose rest is a path in that part
  obtain ⟨path, n⟩ := p
  induction path generalizing v holder replies with
  | nil =>
      rcases mem_offeredIn_iff.1 h with ⟨m, rfl, heq⟩ | ⟨_, i, _, q, -, -, -, heq⟩
      · obtain rfl := congrArg Occurrence.node heq
        exact ⟨rfl, rfl⟩
      · exact absurd (congrArg Occurrence.path heq) (List.cons_ne_nil _ _).symm
  | cons i path ih =>
      rcases mem_offeredIn_iff.1 h with ⟨m, rfl, heq⟩ | ⟨inner, j, w, q, hopened, hw, hq, heq⟩
      · exact absurd (congrArg Occurrence.path heq) (List.cons_ne_nil _ _)
      · obtain ⟨rfl, rfl⟩ := List.cons.inj (congrArg Occurrence.path heq)
        obtain rfl := congrArg Occurrence.node heq
        obtain ⟨refill, -, hrefill, hassemble⟩ := rebuiltIn_of_opened hopened
        have hpart : (rebuiltAmong inner replies 0 v.parts)[i]? =
            some (w.rebuiltIn inner (replies.below i)) := by
          rw [getElem?_rebuiltAmong, hw, Nat.zero_add]
          rfl
        obtain ⟨hvalue, hsharing⟩ :=
          (allRebuiltAs_rebuiltAmong inner replies 0 v.parts).assemble_part hrefill hpart
        obtain ⟨hvalueBelow, hsharingBelow⟩ := ih hq
        rw [hassemble]
        refine ⟨?_, ?_⟩
        · rw [Value.at?, hvalue]
          exact hvalueBelow
        · rw [Sharing.at, List.foldl_cons, hsharing]
          exact hsharingBelow

/-- What is offered from some node on is what is offered in the tree of that node. -/
theorem mem_offeredIn_below_iff {p q : Occurrence} (h : p ∈ v.offeredIn holder replies) :
    q ∈ v.offeredIn holder replies ∧ p.path <+: q.path ↔
      ∃ q' ∈ p.node.offered (replies.from p.path), q = ⟨p.path ++ q'.path, q'.node⟩ := by
  obtain ⟨path, n⟩ := p
  induction path generalizing v holder replies q with
  | nil =>
      rcases mem_offeredIn_iff.1 h with ⟨m, rfl, heq⟩ | ⟨_, i, _, q, -, -, -, heq⟩
      · obtain rfl := congrArg Occurrence.node heq
        exact ⟨fun hq => ⟨q, hq.1, rfl⟩, fun ⟨q', hq', heq⟩ => ⟨heq ▸ hq', List.nil_prefix⟩⟩
      · exact absurd (congrArg Occurrence.path heq) (List.cons_ne_nil _ _).symm
  | cons i path ih =>
      rcases mem_offeredIn_iff.1 h with ⟨m, rfl, heq⟩ | ⟨inner, j, w, p, hopened, hw, hp, heq⟩
      · exact absurd (congrArg Occurrence.path heq) (List.cons_ne_nil _ _)
      · obtain ⟨rfl, rfl⟩ := List.cons.inj (congrArg Occurrence.path heq)
        obtain rfl := congrArg Occurrence.node heq
        constructor
        · rintro ⟨hq, hbegins⟩
          rcases mem_offeredIn_iff.1 hq with ⟨m, rfl, rfl⟩ | ⟨inner', j, w', q, ho, hw', hq, rfl⟩
          · exact absurd (List.prefix_nil.1 hbegins) (List.cons_ne_nil _ _)
          · obtain ⟨rfl, hinside⟩ := List.cons_prefix_cons.1 hbegins
            obtain rfl := Option.some.inj (hopened.symm.trans ho)
            obtain rfl := Option.some.inj (hw.symm.trans hw')
            obtain ⟨q', hq', rfl⟩ := (ih hp).1 ⟨hq, hinside⟩
            exact ⟨q', hq', rfl⟩
        · rintro ⟨q', hq', rfl⟩
          obtain ⟨hq, hbegins⟩ := (ih hp).2 ⟨q', hq', rfl⟩
          refine ⟨?_, List.cons_prefix_cons.2 ⟨rfl, hbegins⟩⟩
          exact mem_offeredIn_iff.2 (.inr ⟨inner, i, w, _, hopened, hw, hq, rfl⟩)

end

/-! ## Offers that leave the tree as it is -/

/-- The offer was declined, or answered by the very node. -/
def Offer.IsQuiet (o : Offer) : Prop := o.answer = none ∨ o.answer = some .keep

/-- Every offer made at these occurrences is quiet. -/
def AllQuiet (replies : Replies) (ps : List Occurrence) : Prop :=
  ∀ p ∈ ps, (p.offer replies).IsQuiet

theorem isKept_settle_iff (n : Node) (r : Replacement) :
    (Rebuilt.settle n r).sharing.isKept = true ↔ r = .keep := by
  cases r <;> simp [Rebuilt.settle, Rebuilt.same, Sharing.isKept]

theorem isKept_assemble (whole : Value) (refill : List Value → Value) (rs : List Rebuilt) :
    (Rebuilt.assemble whole refill rs).sharing.isKept = rs.all fun r => r.sharing.isKept := by
  rw [Rebuilt.assemble]
  split
  · next hall => exact hall.symm
  · next hall => exact (Bool.eq_false_iff.2 hall).symm

mutual

/-- A tree is left as it is just when every offer made in it is quiet. -/
theorem Node.isKept_rebuiltBy_iff (replies : Replies) : (n : Node) →
    ((n.rebuiltBy replies).sharing.isKept = true ↔ AllQuiet replies (n.offered replies))
  | ⟨type, span, fields⟩ => by
      rw [Node.rebuiltBy, Node.offered, AllQuiet, List.forall_mem_cons]
      show _ ↔ (replies [] ⟨type, span, fields⟩ = _ ∨ replies [] ⟨type, span, fields⟩ = _) ∧ _
      cases replies [] ⟨type, span, fields⟩ with
      | some r => simp [isKept_settle_iff]
      | none =>
          simp only [isKept_assemble, true_or, true_and]
          exact all_isKept_rebuiltAmong_iff .field replies 0 fields
termination_by structural n => n

theorem Value.isKept_rebuiltIn_iff (holder : Holder) (replies : Replies) : (v : Value) →
    ((v.rebuiltIn holder replies).sharing.isKept = true ↔
      AllQuiet replies (v.offeredIn holder replies))
  | .node n => n.isKept_rebuiltBy_iff replies
  | .sequence .tuple items => by
      cases holder with
      | field =>
          show (Rebuilt.assemble _ _ _).sharing.isKept = true ↔ _
          rw [isKept_assemble]
          exact all_isKept_rebuiltAmong_iff .tuple replies 0 items
      | tuple => exact iff_of_true rfl fun p hp => absurd hp List.not_mem_nil
  | .sequence .list _ | .absent | .truth _ | .whole _ | .real _ | .text _ | .operator _
  | .operation _ | .targetKind _ | .fragment _ _ =>
      iff_of_true rfl fun p hp => absurd hp List.not_mem_nil
termination_by structural v => v

theorem all_isKept_rebuiltAmong_iff (holder : Holder) (replies : Replies) (i : Nat) :
    (vs : List Value) → (((rebuiltAmong holder replies i vs).all fun r => r.sharing.isKept) = true ↔
      AllQuiet replies (offeredAmong holder replies i vs))
  | [] => iff_of_true rfl fun p hp => absurd hp List.not_mem_nil
  | v :: vs => by
      rw [rebuiltAmong, offeredAmong, List.all_cons, Bool.and_eq_true, AllQuiet,
        List.forall_mem_append, List.forall_mem_map]
      have hfirst := v.isKept_rebuiltIn_iff holder (replies.below i)
      have hlater := all_isKept_rebuiltAmong_iff holder replies (i + 1) vs
      exact and_congr hfirst hlater
termination_by structural vs => vs

end

/-- A node that is offered and not replaced is left as it is or copied. -/
theorem rebuiltBy_of_none {replies : Replies} {n : Node} (h : replies [] n = none) :
    n.rebuiltBy replies = Rebuilt.same (.node n) ∨ ∃ fields parts, n.rebuiltBy replies =
      ⟨.node ⟨n.type, n.span, fields⟩, .copied parts⟩ := by
  obtain ⟨type, span, fields⟩ := n
  rw [Node.rebuiltBy, h]
  show Rebuilt.assemble _ _ _ = _ ∨ ∃ _ _, Rebuilt.assemble _ _ _ = _
  rw [Rebuilt.assemble]
  split
  · exact .inl rfl
  · exact .inr ⟨_, _, rfl⟩

/-- The offers in the tree of a node that is not replaced are quiet just when those below it are. -/
theorem allQuiet_below_iff {replies : Replies} {n : Node} {p : Occurrence}
    (hp : p ∈ n.offered replies) (hnone : replies p.path p.node = none) :
    AllQuiet (replies.from p.path) (p.node.offered (replies.from p.path)) ↔
      ∀ q ∈ n.offered replies, p.IsAbove q → (q.offer replies).IsQuiet := by
  have hmem : p ∈ (Value.node n).offeredIn .field replies := hp
  constructor
  · intro hquiet q hq habove
    obtain ⟨q', hq', rfl⟩ := (mem_offeredIn_below_iff hmem).1 ⟨hq, habove.1⟩
    exact hquiet q' hq'
  · intro hquiet q hq
    obtain ⟨hbelow, hbegins⟩ := (mem_offeredIn_below_iff hmem).2 ⟨q, hq, rfl⟩
    by_cases hroot : q.path = []
    · -- the only node offered at the empty path is the root
      have hself : p.node = q.node := by
        have hsame : q ∈ (Value.node p.node).offeredIn .field (replies.from p.path) := hq
        have hat := at?_of_mem_offeredIn hsame
        rw [hroot] at hat
        exact Value.node.inj (Option.some.inj hat)
      left
      show replies (p.path ++ q.path) q.node = none
      rw [hroot, List.append_nil, ← hself, hnone]
    · apply hquiet _ hbelow
      refine ⟨hbegins, fun heq => hroot ?_⟩
      exact List.append_right_eq_self.1 heq.symm

/-- What a rebuilt tree shares with the given one. Whatever a replacement does with what it was
asked before, and wherever its replacements come from, a node that was offered to it and not
replaced stands at its path in the result: as the same object just when every offer strictly below
it was declined or answered by the very node, and otherwise as a copy of the same type and span. So
the result is the given root just when every offer was declined or answered by the very node. -/
theorem rebuildM_sharing {σ : Type} (replacement : Node → StateM σ (Option Replacement)) (s : σ)
    (n : Node) :
    ∃ (replies : Replies) (result : Rebuilt) (s' : σ),
      (n.rebuildM (recorded replacement)).run (s, []) =
        (result, s', (n.offered replies).map (Occurrence.offer replies)) ∧
      (∀ p ∈ n.offered replies, replies p.path p.node = none →
        ((∀ q ∈ n.offered replies, p.IsAbove q → (q.offer replies).IsQuiet) →
          result.sharing.at p.path = .kept ∧
          result.value.at? p.path = some (.node p.node)) ∧
        (¬(∀ q ∈ n.offered replies, p.IsAbove q → (q.offer replies).IsQuiet) →
          ∃ fields parts, result.sharing.at p.path = .copied parts ∧
            result.value.at? p.path = some (.node ⟨p.node.type, p.node.span, fields⟩))) ∧
      (result.sharing = .kept ↔ ∀ p ∈ n.offered replies, (p.offer replies).IsQuiet) ∧
      (result.sharing = .kept → result.value = .node n) := by
  obtain ⟨replies, s', hrun⟩ := n.exists_replies replacement s
  refine ⟨replies, _, s', hrun [], ?_, ?_, ?_⟩
  · intro p hp hnone
    have hmem : p ∈ (Value.node n).offeredIn .field replies := hp
    obtain ⟨hvalue, hsharing⟩ := rebuiltIn_at hmem
    have hbelow := (p.node.isKept_rebuiltBy_iff (replies.from p.path)).trans
      (allQuiet_below_iff hp hnone)
    have hroot : replies.from p.path [] p.node = none := by
      rw [Replies.from, List.append_nil, hnone]
    rw [show (n.rebuiltBy replies).sharing.at p.path = _ from hsharing,
      show (n.rebuiltBy replies).value.at? p.path = _ from hvalue, ← hbelow]
    -- a node that was not replaced is the same or a copy, and only the same one is kept
    rcases rebuiltBy_of_none hroot with hsame | ⟨fields, parts, hcopy⟩
    · rw [hsame]
      exact ⟨fun _ => ⟨rfl, rfl⟩, fun hcopied => absurd rfl hcopied⟩
    · rw [hcopy]
      exact ⟨fun hkept => Bool.noConfusion hkept, fun _ => ⟨fields, parts, rfl, rfl⟩⟩
  · rw [← Sharing.isKept_iff]
    exact n.isKept_rebuiltBy_iff replies
  · intro hkept
    obtain ⟨r, hr, hvalue, hsame⟩ := n.rebuiltAs_rebuiltBy replies
    obtain rfl := Except.ok.inj hr
    rw [hvalue, hsame (Sharing.isKept_iff.2 hkept)]

end Spruce
