import Mathlib.Data.List.Nodup
import Spruce.Proofs.Meaning.Joined
import Spruce.Proofs.Meaning.Spans
import Spruce.Proofs.Reference.Failures

set_option autoImplicit false

/-!
# Warnings about names given twice

A declaration is warned about once for each of its parameters that is given more than once, in the
order of their characters (`isRepeats_repeatedNames`). What is remarked of an item are its detached
signs and after them its warnings (`Derivation.exists_item_remarks`). So when all of a program is
understood, the warnings are those about its items, in order; when a detached sign stops that, they
are those about the items that end before the sign; and of anything but items there are none
(`parse_warnings`).

Main definitions: `IsRepeats`, the names given more than once; `Node.Warns` and `AreWarnings`, the
warnings about an item and about items one after the other; `Node.liesBefore`.
-/

namespace Spruce

variable {filename : Option String}

/-! ## Names given more than once -/

/-- The one name comes before the other by their characters. -/
def ComesBefore (a b : String) : Prop := @LT.lt (List Char) List.instLT a.toList b.toList

/-- The names that occur at least twice, each once, in the order of their characters. -/
structure IsRepeats (names repeats : List String) : Prop where
  sorted : repeats.Pairwise ComesBefore
  mem_iff : ∀ name, name ∈ repeats ↔ 2 ≤ names.count name

theorem nodup_eraseDups (names : List String) : names.eraseDups.Nodup := by
  cases names with
  | nil => exact .nil
  | cons name names =>
      rw [List.eraseDups_cons]
      refine List.nodup_cons.2 ⟨fun hmem => ?_, nodup_eraseDups _⟩
      have hfilter := List.mem_filter.1 (List.mem_eraseDups.1 hmem)
      simp at hfilter
termination_by names.length
decreasing_by
  have hle := List.length_filter_le (fun b => !b == name) names
  rw [List.length_cons]
  omega

/-- Of two names, one that does not come behind the other and is not the same comes before it. -/
theorem comesBefore_of_le {a b : String} (hle : @LE.le (List Char) List.instLE a.toList b.toList)
    (hne : a ≠ b) : ComesBefore a b := by
  refine Classical.byContradiction fun hlt => hne ?_
  exact String.toList_inj.1 (List.le_antisymm hle (List.not_lt.1 hlt))

theorem isRepeats_repeatedNames (names : List String) : IsRepeats names (repeatedNames names) := by
  constructor
  · have hnodup : (repeatedNames names).Nodup := by
      apply (List.mergeSort_perm _ _).nodup_iff.2
      exact (nodup_eraseDups names).filter _
    have hsorted : (repeatedNames names).Pairwise fun a b =>
        decide (@LE.le (List Char) List.instLE a.toList b.toList) = true := by
      apply List.pairwise_mergeSort
      · intro a b c hab hbc
        exact decide_eq_true (List.le_trans (of_decide_eq_true hab) (of_decide_eq_true hbc))
      · intro a b
        rw [Bool.or_eq_true, decide_eq_true_iff, decide_eq_true_iff]
        exact List.le_total a.toList b.toList
    exact (hsorted.and hnodup).imp fun h => comesBefore_of_le (of_decide_eq_true h.1) h.2
  · intro name
    rw [repeatedNames, List.mem_mergeSort, List.mem_filter, List.mem_eraseDups, decide_eq_true_iff]
    constructor
    · exact And.right
    · intro htwice
      exact ⟨List.count_pos_iff.1 (Nat.lt_of_succ_lt htwice), htwice⟩

example : repeatedNames ["b", "a", "c", "b", "a", "b"] = ["a", "b"] := by cbv

/-- The warnings about a top-level item: about a function or data type one for each name that is
given at least twice among its parameters, in the order of their characters, and about an assignment
none. -/
inductive Node.Warns : Node → List Warning → Prop where
  | functionDecl {span : Option Span} {name : String} {parameters repeats : List String}
      {block : Value} (h : IsRepeats parameters repeats) :
      Warns (.functionDecl span (.text name) (.names parameters) block)
        (repeats.map fun p => .duplicateParameter p name)
  | typeDecl {span : Option Span} {name : String} {parameters repeats : List String}
      {options : Value} (h : IsRepeats parameters repeats) :
      Warns (.typeDecl span (.text name) (.names parameters) options)
        (repeats.map fun p => .duplicateTypeParameter p name)
  | assign {span : Option Span} {destination value : Value} :
      Warns (.assign span destination value) []

/-! ## Remarks on parts of items -/

/-- Nonterminals whose derivations may declare parameters. -/
def Nonterminal.declares : Nonterminal → Bool
  | .program | .items | .moreItems | .item | .functionDecl | .typeDecl => true
  | _ => false

/-- Symbols whose derivations may declare parameters. -/
def Symbol.declares : Symbol → Bool
  | .tok _ => false
  | .sub x => x.declares

theorem declares_parts {x : Nonterminal} (h : x.declares = false) (rule : Rule x) :
    ∀ s ∈ rule.parts, s.declares = false := by
  cases rule <;> first | exact absurd h (by decide) | decide

theorem ruleRemarks_eq_nil {x : Nonterminal} (h : x.declares = false) (hx : x ≠ .number)
    (rule : Rule x) (ms : Meanings rule.parts) : ruleRemarks rule ms = [] := by
  cases rule with
  | functionDecl | typeDecl => exact absurd h (by decide)
  | unsignedNumber | signedNumber => exact absurd rfl hx
  | _ => rfl

/-- The remarks are about detached signs that are among the given tokens. -/
def AreSigns (ts : List Token) (remarks : List Remark) : Prop :=
  ∃ signs : List Token, remarks = signs.map .detachedSign ∧ ∀ t ∈ signs, t ∈ ts

theorem AreSigns.nil (ts : List Token) : AreSigns ts [] :=
  ⟨[], rfl, fun _ ht => absurd ht List.not_mem_nil⟩

theorem AreSigns.append {ts us : List Token} {remarks remarks' : List Remark}
    (h : AreSigns ts remarks) (h' : AreSigns us remarks') :
    AreSigns (ts ++ us) (remarks ++ remarks') := by
  obtain ⟨signs, rfl, hsigns⟩ := h
  obtain ⟨signs', rfl, hsigns'⟩ := h'
  refine ⟨signs ++ signs', List.map_append.symm, fun t ht => ?_⟩
  rcases List.mem_append.1 ht with ht | ht
  · exact List.mem_append_left _ (hsigns t ht)
  · exact List.mem_append_right _ (hsigns' t ht)

/-- A number is remarked upon for its sign only. -/
theorem Derivation.areSigns_number (d : Derivation (.sub .number)) :
    AreSigns d.tokens (d.understand filename).remarks := by
  have hsign : ∀ sign digits : Token, AreSigns [sign, digits]
      (if sign.stop = digits.start.offset then [] else [.detachedSign sign]) := by
    intro sign digits
    split
    · exact .nil _
    · exact ⟨[sign], rfl, List.forall_mem_singleton.2 List.mem_cons_self⟩
  match d with
  | .node .unsignedNumber (.cons (.token _ _ _) .nil) => exact .nil _
  | .node .signedNumber (.cons (.node .plusSign (.cons (.token _ sign _) .nil))
      (.cons (.token _ digits _) .nil)) => exact hsign sign digits
  | .node .signedNumber (.cons (.node .minusSign (.cons (.token _ sign _) .nil))
      (.cons (.token _ digits _) .nil)) => exact hsign sign digits

mutual

/-- What declares no parameters is remarked upon for its signs only. -/
theorem Derivation.areSigns : {s : Symbol} → (d : Derivation s) → s.declares = false →
    AreSigns d.tokens (d.understand filename).remarks
  | _, .token _ _ _, _ => .nil _
  | .sub x, .node rule parts, h => by
      by_cases hx : x = .number
      · subst hx
        exact (Derivation.node rule parts).areSigns_number
      · rw [Derivation.understand, ruleRemarks_eq_nil h hx, List.append_nil]
        exact parts.areSigns (declares_parts h rule)

theorem Derivations.areSigns : {ss : List Symbol} → (ds : Derivations ss) →
    (∀ s ∈ ss, s.declares = false) → AreSigns ds.tokens (ds.understand filename).remarks
  | _, .nil, _ => .nil _
  | _, .cons first rest, h => by
      obtain ⟨hfirst, hrest⟩ := List.forall_mem_cons.1 h
      exact (first.areSigns hfirst).append (rest.areSigns hrest)

end

/-! ## Remarks on items -/

/-- The detached signs of an item are remarked upon before it is warned about. -/
theorem Derivation.exists_item_remarks (filename : Option String)
    (item : Derivation (.sub .item)) :
    ∃ (signs : List Token) (ws : List Warning), (item.understand filename).remarks =
        signs.map .detachedSign ++ ws.map .warning ∧
      (∀ t ∈ signs, t ∈ item.tokens) ∧ Node.Warns (item.understand filename).meaning ws := by
  have htokens : ∀ ts : List Token, ∀ t ∈ ts, t ∈ ts ++ [] := fun _ _ ht =>
    List.mem_append_left _ ht
  match item with
  | .node .functionItem (.cons (.node .functionDecl parts) .nil) =>
      obtain ⟨signs, hsigns, hmem⟩ : AreSigns parts.tokens (parts.understand filename).remarks :=
        parts.areSigns (by decide)
      have hwarns := isRepeats_repeatedNames (parts.understand filename).meanings.2.2.1
      refine ⟨signs, _, ?_, fun t ht => htokens _ t (hmem t ht), .functionDecl hwarns⟩
      show ((parts.understand filename).remarks ++ _ ++ []) ++ [] = _
      rw [hsigns, List.append_nil, List.append_nil, List.map_map]
      rfl
  | .node .typeItem (.cons (.node .typeDecl parts) .nil) =>
      obtain ⟨signs, hsigns, hmem⟩ : AreSigns parts.tokens (parts.understand filename).remarks :=
        parts.areSigns (by decide)
      have hwarns := isRepeats_repeatedNames (parts.understand filename).meanings.2.2.1
      refine ⟨signs, _, ?_, fun t ht => htokens _ t (hmem t ht), .typeDecl hwarns⟩
      show ((parts.understand filename).remarks ++ _ ++ []) ++ [] = _
      rw [hsigns, List.append_nil, List.append_nil, List.map_map]
      rfl
  | .node .assignmentItem (.cons (.node .assignment parts) .nil) =>
      obtain ⟨signs, hsigns, hmem⟩ : AreSigns parts.tokens (parts.understand filename).remarks :=
        parts.areSigns (by decide)
      refine ⟨signs, [], ?_, fun t ht => htokens _ t (hmem t ht), .assign⟩
      show ((parts.understand filename).remarks ++ [] ++ []) ++ [] = _
      rw [hsigns]
      simp

/-! ## Items of a program -/

/-- Items for stretches of some tokens, one after another. -/
inductive ItemsIn : List Token → List (Derivation (.sub .item)) → Prop where
  | nil {ts : List Token} : ItemsIn ts []
  | cons (before : List Token) (item : Derivation (.sub .item)) {later : List Token}
      {items : List (Derivation (.sub .item))} (h : ItemsIn later items) :
      ItemsIn (before ++ (item.tokens ++ later)) (item :: items)

theorem ItemsIn.prepend {ts : List Token} {items : List (Derivation (.sub .item))}
    (before : List Token) (h : ItemsIn ts items) : ItemsIn (before ++ ts) items := by
  cases h with
  | nil => exact .nil
  | cons between item h =>
      rw [← List.append_assoc]
      exact .cons (before ++ between) item h

theorem ItemsIn.within {ts : List Token} {items : List (Derivation (.sub .item))}
    (h : ItemsIn ts items) : ∀ item ∈ items, item.tokens <:+: ts := by
  induction h with
  | nil => exact fun _ hi => absurd hi List.not_mem_nil
  | @cons before item later items _ ih =>
      refine List.forall_mem_cons.2 ⟨⟨before, later, List.append_assoc _ _ _⟩, fun i hi => ?_⟩
      have hsuffix : later <:+ before ++ (item.tokens ++ later) :=
        (List.suffix_append _ later).trans (List.suffix_append before _)
      exact (ih i hi).trans hsuffix.isInfix

/-- The node of an item. -/
def Derivation.itemNode (filename : Option String) (item : Derivation (.sub .item)) : Node :=
  (item.understand filename).meaning

/-- The nodes of some items. -/
def itemNodes (filename : Option String) (items : List (Derivation (.sub .item))) : List Node :=
  items.map (Derivation.itemNode filename)

theorem itemNodes_cons (item : Derivation (.sub .item)) (items : List (Derivation (.sub .item))) :
    itemNodes filename (item :: items) = item.itemNode filename :: itemNodes filename items := rfl

/-- What is remarked of some items, one after the other. -/
def itemRemarks (filename : Option String) (items : List (Derivation (.sub .item))) :
    List Remark :=
  items.flatMap fun item => (item.understand filename).remarks

mutual

/-- Items stand one behind the other. -/
theorem Derivation.exists_items (filename : Option String) :
    (d : Derivation (.sub .items)) → ∃ items, ItemsIn d.tokens items ∧
      Nonterminal.items.nodes (d.understand filename).meaning = itemNodes filename items ∧
      (d.understand filename).remarks = itemRemarks filename items
  | noItems => ⟨[], .nil, rfl, rfl⟩
  | someItems item more => by
      obtain ⟨items, hitems, hnodes, hremarks⟩ := more.exists_moreItems filename
      refine ⟨item :: items, ?_, congrArg (item.itemNode filename :: ·) hnodes, ?_⟩
      · rw [someItems_tokens]
        exact hitems.cons [] item
      · show (_ ++ (_ ++ [])) ++ [] = _
        rw [hremarks, List.append_nil, List.append_nil]
        rfl
termination_by d => d.tokens.length
decreasing_by
  have hitem := List.length_pos_iff.2 (item.tokens_ne_nil rfl)
  show more.tokens.length < (someItems item more).tokens.length
  rw [someItems_tokens, List.length_append]
  omega

/-- So do the items behind an item. -/
theorem Derivation.exists_moreItems (filename : Option String) :
    (d : Derivation (.sub .moreItems)) → ∃ items, ItemsIn d.tokens items ∧
      Nonterminal.moreItems.nodes (d.understand filename).meaning = itemNodes filename items ∧
      (d.understand filename).remarks = itemRemarks filename items
  | .node .lastItem .nil => ⟨[], .nil, rfl, rfl⟩
  | nextItems t ht later => by
      obtain ⟨items, hitems, hnodes, hremarks⟩ := later.exists_items filename
      refine ⟨items, ?_, hnodes, ?_⟩
      · rw [nextItems_tokens]
        exact hitems.prepend [t]
      · show [] ++ (_ ++ []) ++ [] = _
        rw [hremarks, List.append_nil, List.append_nil]
        rfl
termination_by d => d.tokens.length
decreasing_by
  show later.tokens.length < (nextItems t ht later).tokens.length
  rw [nextItems_tokens]
  exact Nat.lt_succ_self _

end

/-- A program is its items, one behind the other, and nothing else is remarked of it. -/
theorem Derivation.exists_items_of_program (filename : Option String)
    (d : Derivation (.sub .program)) :
    ∃ items, ItemsIn d.tokens items ∧
      (d.understand filename).meaning =
        Node.program (tokensSpan filename d.tokens) (.nodes (itemNodes filename items)) ∧
      (d.understand filename).remarks = itemRemarks filename items := by
  rw [d.understand_program]
  match d with
  | program before its =>
      obtain ⟨items, hitems, hnodes, hremarks⟩ := its.exists_items filename
      have hbefore : (before.understand filename).remarks = [] := by
        match before with
        | .node .noNewline .nil | .node .newline (.cons (.token _ _ _) .nil) => rfl
      refine ⟨items, ?_, congrArg (fun ns => Node.program _ (.nodes ns)) hnodes, ?_⟩
      · rw [program_tokens]
        exact hitems.prepend before.tokens
      · show (_ ++ (_ ++ [])) ++ [] = _
        rw [hbefore, hremarks, List.append_nil, List.append_nil]
        rfl

/-! ## Items before a place -/

/-- The node's span ends before the given offset. -/
def Node.liesBefore (offset : Nat) (n : Node) : Bool :=
  match n.span with
  | none => false
  | some s => decide (s.stop ≤ offset)

theorem Derivation.itemNode_span (item : Derivation (.sub .item)) :
    (item.itemNode filename).span = tokensSpan filename item.tokens := by
  have hspan : ∀ {x : Nonterminal} {rule : Rule x} (parts : Derivations rule.parts),
      (parts.understand filename).extent.map (Span.ofExtent filename) =
        tokensSpan filename (parts.tokens ++ []) := by
    intro x rule parts
    rw [parts.understand_extent, List.append_nil]
    rfl
  match item with
  | .node .functionItem (.cons (.node .functionDecl parts) .nil) => exact hspan parts
  | .node .typeItem (.cons (.node .typeDecl parts) .nil) => exact hspan parts
  | .node .assignmentItem (.cons (.node .assignment parts) .nil) => exact hspan parts

/-- An item ends before a place just when all its tokens do. -/
theorem Derivation.liesBefore_itemNode_iff {item : Derivation (.sub .item)}
    (hsorted : Sorted item.tokens) {offset : Nat} :
    (item.itemNode filename).liesBefore offset = true ↔ ∀ t ∈ item.tokens, t.stop ≤ offset := by
  obtain ⟨t, ht⟩ := List.exists_mem_of_ne_nil _ (item.tokens_ne_nil rfl)
  obtain ⟨s, hs⟩ := exists_tokensSpan filename ht
  obtain ⟨first, -, last, hlast, rfl, hbounds⟩ := hsorted.exists_bounds hs
  have hbefore : (item.itemNode filename).liesBefore offset = true ↔ last.stop ≤ offset := by
    rw [Node.liesBefore, item.itemNode_span, hs]
    exact decide_eq_true_iff.trans Int.ofNat_le
  rw [hbefore]
  constructor
  · intro hle u hu
    exact Nat.le_trans (hbounds u hu).2 hle
  · intro hall
    exact hall last hlast

/-- No item ends before a place that all tokens end behind. -/
theorem ItemsIn.filter_liesBefore {ts : List Token} {items : List (Derivation (.sub .item))}
    (h : ItemsIn ts items) (hsorted : Sorted ts) {offset : Nat}
    (hbehind : ∀ t ∈ ts, offset < t.stop) :
    (itemNodes filename items).filter (Node.liesBefore offset) = [] := by
  apply List.filter_eq_nil_iff.2
  intro n hn hbefore
  obtain ⟨item, hitem, rfl⟩ := List.mem_map.1 hn
  have hwithin := h.within item hitem
  obtain ⟨t, ht⟩ := List.exists_mem_of_ne_nil _ (item.tokens_ne_nil rfl)
  have hstop := (Derivation.liesBefore_itemNode_iff (hsorted.of_within hwithin)).1 hbefore t ht
  exact Nat.not_lt.2 hstop (hbehind t (hwithin.subset ht))

/-! ## Heeding remarks -/

/-- The warnings are those about the given items, one item after the other. -/
def AreWarnings (items : List Node) (ws : List Warning) : Prop :=
  ∃ wss : List (List Warning), List.Forall₂ Node.Warns items wss ∧ ws = wss.flatten

theorem AreWarnings.nil : AreWarnings [] [] := ⟨[], .nil, rfl⟩

theorem AreWarnings.cons {item : Node} {items : List Node} {ws later : List Warning}
    (h : item.Warns ws) (hlater : AreWarnings items later) :
    AreWarnings (item :: items) (ws ++ later) := by
  obtain ⟨wss, hwss, rfl⟩ := hlater
  exact ⟨ws :: wss, .cons h hwss, rfl⟩

/-- Warnings are issued, and what comes after them is heeded. -/
theorem heed_append (ws : List Warning) (remarks : List Remark) :
    heed filename (ws.map Remark.warning ++ remarks) =
      ⟨ws ++ (heed filename remarks).warnings, (heed filename remarks).outcome⟩ := by
  induction ws with
  | nil => rfl
  | cons w ws ih =>
      show (do Diagnosed.warn [w]; heed filename (ws.map Remark.warning ++ remarks)) = _
      rw [ih]
      rfl

/-- Signs only are heeded without a warning. -/
theorem AreSigns.warnings_heed {ts : List Token} {remarks : List Remark}
    (h : AreSigns ts remarks) : (heed filename remarks).warnings = [] := by
  obtain ⟨signs, rfl, -⟩ := h
  cases signs <;> rfl

/-- If no sign is detached in items that stand in order, all their warnings are issued; otherwise
those about the items that end before the first sign that is. -/
theorem heed_items {ts : List Token} {items : List (Derivation (.sub .item))}
    (hitems : ItemsIn ts items) (hsorted : Sorted ts) :
    ((heed filename (itemRemarks filename items)).outcome = .ok () ∧
      AreWarnings (itemNodes filename items)
        (heed filename (itemRemarks filename items)).warnings) ∨
    ∃ sign ∈ ts,
      (heed filename (itemRemarks filename items)).outcome =
        .error (signFailure filename sign) ∧
      AreWarnings ((itemNodes filename items).filter (Node.liesBefore sign.start.offset))
        (heed filename (itemRemarks filename items)).warnings := by
  induction hitems with
  | nil => exact .inl ⟨rfl, .nil⟩
  | @cons before item later items hitems ih =>
      have hall : Sorted (item.tokens ++ later) :=
        hsorted.of_within (List.suffix_append before _).isInfix
      have hitem : Sorted item.tokens := hall.of_within (List.prefix_append _ _).isInfix
      have hlater : Sorted later := hall.of_within (List.suffix_append _ _).isInfix
      have hbehind := (List.pairwise_append.1 hall.2).2.2
      obtain ⟨signs, ws, hremarks, hsigns, hwarns⟩ := item.exists_item_remarks filename
      have hcons : itemRemarks filename (item :: items) =
          signs.map .detachedSign ++ (ws.map .warning ++ itemRemarks filename items) := by
        rw [itemRemarks, List.flatMap_cons, hremarks, List.append_assoc]
        rfl
      rw [hcons, itemNodes_cons]
      cases signs with
      | nil =>
          rw [List.map_nil, List.nil_append, heed_append]
          rcases ih hlater with ⟨hok, hwarned⟩ | ⟨sign, hsign, herror, hwarned⟩
          · exact .inl ⟨hok, hwarned.cons hwarns⟩
          · have hmem : sign ∈ before ++ (item.tokens ++ later) :=
              List.mem_append_right _ (List.mem_append_right _ hsign)
            -- the sign is behind this item, which ends before it
            have hbefore : (item.itemNode filename).liesBefore sign.start.offset = true := by
              apply (Derivation.liesBefore_itemNode_iff hitem).2
              exact fun t ht => hbehind t ht sign hsign
            refine .inr ⟨sign, hmem, herror, ?_⟩
            rw [List.filter_cons_of_pos hbefore]
            exact hwarned.cons hwarns
      | cons sign signs =>
          have hsign : sign ∈ item.tokens := hsigns sign List.mem_cons_self
          have hmem : sign ∈ before ++ (item.tokens ++ later) :=
            List.mem_append_right _ (List.mem_append_left _ hsign)
          have hlt : sign.start.offset < sign.stop := hitem.1 sign hsign
          refine .inr ⟨sign, hmem, rfl, ?_⟩
          -- neither this item, which has the sign, nor any behind it ends before the sign
          have hnot : ¬(item.itemNode filename).liesBefore sign.start.offset = true := by
            intro hbefore
            have hstop := (Derivation.liesBefore_itemNode_iff hitem).1 hbefore sign hsign
            exact Nat.not_lt.2 hstop hlt
          have hnone : ∀ t ∈ later, sign.start.offset < t.stop := by
            intro t ht
            have hstart := hbehind sign hsign t ht
            have hstop := hlater.1 t ht
            omega
          rw [List.filter_cons_of_neg hnot, hitems.filter_liesBefore hlater hnone]
          exact .nil

/-! ## Warnings of a text -/

/-- Finding a derivation does not fail for the sake of a sign. -/
theorem cause_ne_of_derive {start : Start} {text : Text} {e : ParseFailure}
    (h : derive start filename text = .error e) (sign : Text) : e.cause ≠ .spaceAfterSign sign := by
  cases parse_eq_error_iff.1 (parse_of_derive_error h) with
  | obstacle | unrecognised | unfinished => exact Cause.noConfusion
  | detached hrest htokens _ => cases h.symm.trans (derive_eq_ok_iff.2 ⟨hrest, htokens⟩)

/-- A text that has a derivation is warned about as the remarks on it are heeded. -/
theorem parse_of_derive_ok {start : Start} {text : Text} {d : Derivation start.goal}
    {remarks : List Remark} (h : derive start filename text = .ok d)
    (hremarks : (d.understand filename).remarks = remarks) :
    (parse start filename text).warnings = (heed filename remarks).warnings ∧
      (parse start filename text).outcome = (heed filename remarks).outcome.map fun _ =>
        start.node (d.understand filename).meaning := by
  rw [parse, h, ← hremarks]
  dsimp only [bind, Diagnosed.andThen, pure, Diagnosed.succeed]
  cases (heed filename (d.understand filename).remarks).outcome with
  | error e => exact ⟨rfl, rfl⟩
  | ok u => exact ⟨List.append_nil _, rfl⟩

/-- A lone expression declares nothing. -/
theorem warnings_parse_expression (filename : Option String) (text : Text) :
    (parse .expression filename text).warnings = [] := by
  cases hd : derive .expression filename text with
  | error e =>
      rw [parse, hd]
      rfl
  | ok d =>
      have hsigns : AreSigns d.tokens (d.understand filename).remarks := d.areSigns rfl
      exact (parse_of_derive_ok hd rfl).1.trans hsigns.warnings_heed

/-- A text that is read as a program is warned about for the items of it, all of them if it is one
and otherwise those that end before the sign that is reported. -/
theorem parse_program_cases (filename : Option String) (text : Text) :
    (∃ span items, (parse .program filename text).outcome = .ok (.program span (.nodes items)) ∧
      AreWarnings items (parse .program filename text).warnings) ∨
    (∃ (d : Derivation Start.program.goal) (sign : Token) (span : Option Span) (items : List Node),
      (lex text).rest = [] ∧ d.tokens = (lex text).tokens ∧
      (d.understand filename).meaning = Node.program span (.nodes items) ∧
      (parse .program filename text).outcome = .error (signFailure filename sign) ∧
      AreWarnings (items.filter (Node.liesBefore sign.start.offset))
        (parse .program filename text).warnings) ∨
    ∃ e, (parse .program filename text).outcome = .error e ∧
      (∀ sign, e.cause ≠ .spaceAfterSign sign) ∧ (parse .program filename text).warnings = [] := by
  cases hd : derive .program filename text with
  | error e =>
      refine .inr (.inr ⟨e, parse_of_derive_error hd, cause_ne_of_derive hd, ?_⟩)
      rw [parse, hd]
      rfl
  | ok d =>
      obtain ⟨hrest, htokens⟩ := derive_eq_ok_iff.1 hd
      obtain ⟨items, hitems, hmeaning, hremarks⟩ := d.exists_items_of_program filename
      obtain ⟨hwarnings, houtcome⟩ := parse_of_derive_ok hd hremarks
      have hsorted : Sorted d.tokens := htokens ▸ sorted_of_lex hrest
      rw [hwarnings, houtcome]
      rcases heed_items hitems hsorted with ⟨hok, hwarned⟩ | ⟨sign, -, herror, hwarned⟩
      · rw [hok]
        exact .inl ⟨_, _, congrArg Except.ok hmeaning, hwarned⟩
      · rw [herror]
        exact .inr (.inl ⟨d, sign, _, _, hrest, htokens, hmeaning, rfl, hwarned⟩)

/-- What names given twice are warned about. A text that is a program is warned about for each of
its items, one after the other; one that is none for the sake of a detached sign for the items that
lie before that sign; and one that is none for another reason, or that is read as an expression, is
not warned about. -/
theorem parse_warnings (filename : Option String) (text : Text) :
    (∀ n, (parse .program filename text).outcome = .ok n → ∃ span items,
      n = .program span (.nodes items) ∧
        AreWarnings items (parse .program filename text).warnings) ∧
    (∀ e sign, (parse .program filename text).outcome = .error e →
      e.cause = .spaceAfterSign sign →
        ∃ (d : Derivation Start.program.goal) (span : Option Span) (items : List Node),
          (lex text).rest = [] ∧ d.tokens = (lex text).tokens ∧
          (d.understand filename).meaning = Node.program span (.nodes items) ∧
          AreWarnings (items.filter (Node.liesBefore e.position.offset))
            (parse .program filename text).warnings) ∧
    (∀ e, (parse .program filename text).outcome = .error e →
      (∀ sign, e.cause ≠ .spaceAfterSign sign) →
        (parse .program filename text).warnings = []) ∧
    (parse .expression filename text).warnings = [] := by
  have hcases := parse_program_cases filename text
  refine ⟨?_, ?_, ?_, warnings_parse_expression filename text⟩
  · intro n hn
    rw [hn] at hcases
    rcases hcases with ⟨span, items, h, hwarned⟩ | ⟨_, _, _, _, _, _, _, h, _⟩ | ⟨_, h, _⟩
    · exact ⟨span, items, Except.ok.inj h, hwarned⟩
    · cases h
    · cases h
  · intro e sign he hsign
    rw [he] at hcases
    rcases hcases with ⟨_, _, h, _⟩ | ⟨d, t, span, items, hrest, htokens, hmeaning, h, hwarned⟩ |
      ⟨e', h, hcause, _⟩
    · cases h
    · obtain rfl := Except.error.inj h
      exact ⟨d, span, items, hrest, htokens, hmeaning, hwarned⟩
    · obtain rfl := Except.error.inj h
      exact absurd hsign (hcause sign)
  · intro e he hnone
    rw [he] at hcases
    rcases hcases with ⟨_, _, h, _⟩ | ⟨_, t, _, _, _, _, _, h, _⟩ | ⟨_, _, _, hwarnings⟩
    · cases h
    · obtain rfl := Except.error.inj h
      exact absurd rfl (hnone t.text)
    · exact hwarnings

end Spruce
