import Mathlib.Data.List.Pairwise
import Spruce.Proofs.Meaning.Nodes
import Spruce.Proofs.Token.Cuts
import Spruce.Source.Excerpt

set_option autoImplicit false

/-!
# Spans of nodes

Every node of a tree that was read covers a stretch of the tokens of the text, and its children
cover stretches of these, one after another (`Derivation.covers`). As each token ends before the
next starts, the spans of a tree are nested and in order, and each counts lines and columns as the
text has them (`Node.Covers.placed`).

Main definitions: `InTurn`, nodes for stretches of tokens, one after another; `Node.Covers`;
`Span.LiesIn` and `Node.Placed`, what a well-formed span is.
-/

namespace Spruce

variable {filename : Option String}

/-! ## Nodes for stretches of tokens -/

/-- Nodes for stretches of some tokens, one after another, of each of which `P` holds. -/
inductive InTurn (P : List Token → Node → Prop) : List Token → List Node → Prop where
  | nil {ts : List Token} : InTurn P ts []
  | cons {before us later : List Token} {n : Node} {ns : List Node} (h : P us n)
      (hlater : InTurn P later ns) : InTurn P (before ++ (us ++ later)) (n :: ns)

namespace InTurn

variable {P Q : List Token → Node → Prop} {ts us : List Token} {n : Node} {ns ms : List Node}

theorem single (h : P us n) : InTurn P us [n] := by
  have hcons : InTurn P ([] ++ (us ++ [])) [n] := .cons h .nil
  rwa [List.append_nil] at hcons

theorem prepend (before : List Token) (h : InTurn P ts ns) : InTurn P (before ++ ts) ns := by
  cases h with
  | nil => exact .nil
  | cons h hlater =>
      rw [← List.append_assoc]
      exact .cons h hlater

theorem append (h : InTurn P ts ns) (h' : InTurn P us ms) : InTurn P (ts ++ us) (ns ++ ms) := by
  induction h with
  | nil => exact h'.prepend _
  | cons h _ ih =>
      rw [List.append_assoc, List.append_assoc]
      exact .cons h ih

theorem of_append (h : InTurn P ts (ns ++ ms)) :
    ∃ us vs, us ++ vs = ts ∧ InTurn P us ns ∧ InTurn P vs ms := by
  induction ns generalizing ts with
  | nil => exact ⟨[], ts, rfl, .nil, h⟩
  | cons n ns ih =>
      rw [List.cons_append] at h
      cases h with
      | @cons before us later _ _ h hlater =>
          obtain ⟨vs, ws, rfl, hns, hms⟩ := ih hlater
          refine ⟨before ++ (us ++ vs), ws, ?_, .cons h hns, hms⟩
          rw [List.append_assoc, List.append_assoc]

/-- Nodes in turn may give way to others that stand within their stretches. -/
theorem replace (h : InTurn P ts ns)
    (hns : List.Forall₂ (fun n m => ∀ us, P us n → ∃ vs, vs <:+: us ∧ Q vs m) ns ms) :
    InTurn Q ts ms := by
  induction h generalizing ms with
  | nil =>
      cases hns
      exact .nil
  | @cons before us later n ns h _ ih =>
      cases hns with
      | cons hn hns =>
          obtain ⟨_, ⟨a, b, rfl⟩, hvs⟩ := hn us h
          rw [List.append_assoc, List.append_assoc, ← List.append_assoc]
          exact .cons hvs ((ih hns).prepend b)

/-- Each of some nodes in turn stands for a stretch. -/
theorem exists_of_mem (h : InTurn P ts ns) (hn : n ∈ ns) : ∃ us, us <:+: ts ∧ P us n := by
  induction h with
  | nil => exact absurd hn List.not_mem_nil
  | @cons before us later m ns h _ ih =>
      rcases List.mem_cons.1 hn with rfl | hn
      · exact ⟨us, ⟨before, later, List.append_assoc _ _ _⟩, h⟩
      · obtain ⟨vs, hvs, hP⟩ := ih hn
        have hsuffix : later <:+: before ++ (us ++ later) :=
          ((List.suffix_append us later).trans (List.suffix_append before _)).isInfix
        exact ⟨vs, hvs.trans hsuffix, hP⟩

/-- What holds between any two stretches that follow each other holds between the nodes. -/
theorem pairwise {R : Node → Node → Prop} (h : InTurn P ts ns)
    (hR : ∀ us vs before between after n m, ts = before ++ (us ++ (between ++ (vs ++ after))) →
      P us n → P vs m → R n m) : ns.Pairwise R := by
  induction h with
  | nil => exact .nil
  | @cons before us later n ns h hlater ih =>
      refine .cons ?_ (ih ?_)
      · intro m hm
        obtain ⟨vs, ⟨between, after, rfl⟩, hvs⟩ := hlater.exists_of_mem hm
        refine hR us vs before between after n m ?_ h hvs
        rw [List.append_assoc between]
      · rintro us' vs before' between after n' m rfl hn hm
        refine hR us' vs (before ++ (us ++ before')) between after n' m ?_ hn hm
        simp only [List.append_assoc]

end InTurn

/-- A node that covers some tokens: its span is theirs, and its children cover stretches of them,
one after another. A node that covers no tokens is one that was made of none. -/
inductive Node.Covers (filename : Option String) : List Token → Node → Prop where
  | intro {us : List Token} {n : Node} {ns : List Node} (hspan : n.span = tokensSpan filename us)
      (hempty : us = [] → n.ReadFrom filename []) (hchildren : n.children = ns.map .node)
      (hns : InTurn (Covers filename) us ns) : Covers filename us n

mutual

/-- The nodes that a derivation means cover stretches of its tokens, one after another. -/
theorem Derivation.covers : {s : Symbol} → (d : Derivation s) → d.IsTight →
    InTurn (Node.Covers filename) d.tokens (s.nodes (d.understand filename).meaning)
  | _, .token _ _ _, _ => .nil
  | .sub x, .node rule parts, htight => by
      have hparts : InTurn (Node.Covers filename) parts.tokens
          (parts.understand filename).meanings.nodes := by
        by_cases hx : x = .number
        · subst hx
          rw [nodes_number rule]
          exact .nil
        · exact parts.covers (Derivation.isTight_parts hx htight)
      cases hmakes : rule.makesNode with
      | false =>
          rw [Derivation.tokens, Symbol.nodes, Derivation.nodes_understand hmakes]
          exact hparts
      | true =>
          obtain ⟨n, hnode, hspan, hchildren⟩ := Derivation.exists_node_understand hmakes parts
          have hempty (hnil : parts.tokens = []) : n.ReadFrom filename [] :=
            .intro rule parts hmakes hnode htight (hnil ▸ List.infix_rfl)
          have hcovers : n.Covers filename parts.tokens := .intro hspan hempty hchildren hparts
          rw [Derivation.tokens, Symbol.nodes, hnode]
          exact .single hcovers

theorem Derivations.covers : {ss : List Symbol} → (ds : Derivations ss) → ds.IsTight →
    InTurn (Node.Covers filename) ds.tokens (ds.understand filename).meanings.nodes
  | _, .nil, _ => .nil
  | _, .cons first rest, htight => by
      obtain ⟨hfirst, hrest⟩ := Derivations.isTight_of_cons htight
      exact (first.covers hfirst).append (rest.covers hrest)

end

/-- The tree of a text covers some of its tokens. -/
theorem covers_of_parse {start : Start} {text : Text} {root : Node}
    (h : (parse start filename text).outcome = .ok root) :
    ∃ us, us <:+: (lex text).tokens ∧ root.Covers filename us := by
  obtain ⟨-, d, htokens, htight, rfl⟩ := parse_eq_ok_iff.1 h
  rw [← htokens]
  cases start with
  | program => exact (d.covers htight).exists_of_mem List.mem_cons_self
  | expression => exact (d.covers htight).exists_of_mem List.mem_cons_self

/-- What stands below a node that covers some tokens covers some of these. -/
theorem Node.Covers.exists_of_has {us : List Token} {n m : Node} (h : n.Covers filename us)
    (hm : n.Has m) : ∃ vs, vs <:+: us ∧ m.Covers filename vs := by
  induction hm generalizing us with
  | refl => exact ⟨us, List.infix_rfl, h⟩
  | child hc _ ih =>
      obtain ⟨-, -, hchildren, hns⟩ := h
      rw [hchildren] at hc
      obtain ⟨c, hmem, hc⟩ := List.mem_map.1 hc
      obtain rfl := Value.node.inj hc
      obtain ⟨vs, hvs, hcovers⟩ := hns.exists_of_mem hmem
      obtain ⟨ws, hws, hm⟩ := ih hcovers
      exact ⟨ws, hws.trans hvs, hm⟩

/-! ## Well-formed spans -/

/-- The offset at which the line begins that the place at `offset` stands on. -/
def lineStart (text : Text) (offset : Nat) : Nat := offset - (lastLine (text.take offset)).length

/-- A span of at least one character of a text, with the line and column of its start. -/
structure Span.LiesIn (filename : Option String) (text : Text) (s : Span) : Prop where
  start_nonneg : 0 ≤ s.start
  start_lt_stop : s.start < s.stop
  stop_le : s.stop ≤ text.length
  line_eq : s.line = 1 + (text.take s.start.toNat).count '\n'
  column_eq : s.column = s.start - lineStart text s.start.toNat + 1
  filename_eq : s.filename = filename

/-- A node with a well-formed span, within which its children have theirs, one after another. Only a
program or body may have no span, and only one that was made of no tokens. -/
structure Node.Placed (filename : Option String) (text : Text) (n : Node) : Prop where
  unplaced : n.span = none → (n.type = .program ∨ n.type = .body) ∧ n.ReadFrom filename []
  liesIn : ∀ s, n.span = some s → s.LiesIn filename text
  nested : ∀ c s', .node c ∈ n.children → c.span = some s' →
    ∃ s, n.span = some s ∧ s.start ≤ s'.start ∧ s'.stop ≤ s.stop
  ordered : n.children.Pairwise fun v w => ∀ c d s s', v = .node c → w = .node d →
    c.span = some s → d.span = some s' → s.stop ≤ s'.start

/-- A line feed ends a line. -/
theorem lastLine_concat (cs : List Char) (c : Char) :
    lastLine (cs ++ [c]) = if c = '\n' then [] else lastLine cs ++ [c] := by
  simp only [lastLine, List.reverse_append, List.reverse_singleton, List.singleton_append,
    List.takeWhile_cons]
  split_ifs <;> simp_all

theorem lastLine_length_le (cs : List Char) : (lastLine cs).length ≤ cs.length := by
  have hfront : (cs.reverse.takeWhile (· ≠ '\n')).length ≤ cs.reverse.length :=
    (List.takeWhile_prefix _).length_le
  rw [List.length_reverse] at hfront
  rwa [lastLine, List.length_reverse]

/-- The place after a text is on the line that its line feeds count, as far from the last of them as
that line is long. -/
theorem advance_origin (cs : List Char) :
    Position.origin.advance cs = ⟨cs.length, 1 + cs.count '\n', (lastLine cs).length + 1⟩ := by
  induction cs using List.reverseRecOn with
  | nil => rfl
  | append_singleton cs c ih =>
      rw [Position.advance_append, ih, Position.advance_cons, Position.advance_nil,
        Position.next, lastLine_concat]
      split_ifs with hc
      · simp [hc, Nat.add_assoc]
      · simp [hc, List.count_append]

/-- Every token starts before it ends, and ends before the next starts. -/
def Sorted (ts : List Token) : Prop :=
  (∀ t ∈ ts, t.start.offset < t.stop) ∧ ts.Pairwise fun t u => t.stop ≤ u.start.offset

/-- The tokens of a text are in order. -/
theorem sorted_of_lex {text : Text} (h : (lex text).rest = []) : Sorted (lex text).tokens := by
  refine ⟨fun t ht => (standsIn_of_lex t ht).start_lt_stop, ?_⟩
  obtain ⟨ls, -, -, htokens⟩ := lex_rest_eq_nil_iff.1 h
  rw [htokens]
  exact place_sorted _ _

theorem Sorted.of_within {ts us : List Token} (h : Sorted ts) (hus : us <:+: ts) : Sorted us :=
  ⟨fun t ht => h.1 t (hus.subset ht), h.2.sublist hus.sublist⟩

/-- The span of tokens in order starts with one of them and ends with one of them, and takes in all
of them. -/
theorem Sorted.exists_bounds {us : List Token} (hus : Sorted us) {s : Span}
    (hs : tokensSpan filename us = some s) :
    ∃ t ∈ us, ∃ u ∈ us, s = Span.ofExtent filename ⟨t.start, u.stop⟩ ∧
      ∀ v ∈ us, t.start.offset ≤ v.start.offset ∧ v.stop ≤ u.stop := by
  cases us with
  | nil => exact absurd hs.symm (Option.some_ne_none s)
  | cons t ts =>
      have hne := List.cons_ne_nil t ts
      have hspan := tokensSpan_eq_some filename (rfl : (t :: ts).head? = some t)
        (List.getLast?_eq_some_getLast hne)
      have hlast := List.getLast_mem hne
      refine ⟨t, List.mem_cons_self, _, hlast, Option.some.inj (hs.symm.trans hspan), ?_⟩
      have hstarts : (t :: ts).Pairwise fun v w => v.start.offset ≤ w.start.offset :=
        hus.2.imp_of_mem fun hv _ hvw => Nat.le_trans (Nat.le_of_lt (hus.1 _ hv)) hvw
      have hstops : (t :: ts).Pairwise fun v w => v.stop ≤ w.stop :=
        hus.2.imp_of_mem fun _ hw hvw => Nat.le_trans hvw (Nat.le_of_lt (hus.1 _ hw))
      intro v hv
      exact ⟨hstarts.rel_head_of_rel_head_head hv (Nat.le_refl _),
        hstops.rel_getLast_of_rel_getLast_getLast hv (Nat.le_refl _)⟩

theorem exists_tokensSpan (filename : Option String) {us : List Token} {t : Token} (ht : t ∈ us) :
    ∃ s, tokensSpan filename us = some s := by
  cases us with
  | nil => exact absurd ht List.not_mem_nil
  | cons u us => exact ⟨_, rfl⟩

/-- A stretch of text that starts where its position says is a well-formed span. -/
theorem liesIn_ofExtent {text : Text} {p : Position} {stop : Nat}
    (hp : p = Position.origin.advance (text.take p.offset)) (hlt : p.offset < stop)
    (hstop : stop ≤ text.length) : (Span.ofExtent filename ⟨p, stop⟩).LiesIn filename text := by
  have hlength : (text.take p.offset).length = p.offset :=
    List.length_take_of_le (Nat.le_of_lt (Nat.lt_of_lt_of_le hlt hstop))
  rw [advance_origin] at hp
  have hline : p.line = 1 + (text.take p.offset).count '\n' := congrArg Position.line hp
  have hcolumn : p.column = (lastLine (text.take p.offset)).length + 1 :=
    congrArg Position.column hp
  have hlast := lastLine_length_le (text.take p.offset)
  refine ⟨Int.natCast_nonneg _, Int.ofNat_lt.2 hlt, Int.ofNat_le.2 hstop, ?_, ?_, rfl⟩
  · simp only [Span.ofExtent, Int.toNat_natCast]
    omega
  · simp only [Span.ofExtent, Int.toNat_natCast, lineStart]
    omega

/-- Only programs and bodies are made of no tokens, and only without children. -/
theorem Node.ReadFrom.of_nil {n : Node} (h : n.ReadFrom filename []) :
    (n.type = .program ∨ n.type = .body) ∧ n.children = [] := by
  obtain ⟨rule, parts, hmakes, hnode, -, hwithin⟩ := h
  have hnil : parts.tokens = [] := List.infix_nil.1 hwithin
  cases rule with
  | program =>
      obtain rfl := List.singleton_inj.1 hnode
      match parts with
      | .cons _ (.cons (.node .noItems .nil) .nil) => exact ⟨.inl rfl, rfl⟩
      | .cons _ (.cons (.node .someItems items) .nil) =>
          exact absurd (List.append_eq_nil_iff.1 hnil).2
            (List.append_ne_nil_of_left_ne_nil (items.tokens_ne_nil rfl) _)
  | body =>
      obtain rfl := List.singleton_inj.1 hnode
      match parts with
      | .cons (.node .noLines .nil) .nil => exact ⟨.inr rfl, rfl⟩
      | .cons (.node .trailingLine lines) .nil =>
          exact absurd hnil (List.append_ne_nil_of_left_ne_nil (lines.tokens_ne_nil rfl) _)
      | .cons (.node .statementLine lines) .nil =>
          exact absurd hnil (List.append_ne_nil_of_left_ne_nil (lines.tokens_ne_nil rfl) _)
  | armBody =>
      obtain rfl := List.singleton_inj.1 hnode
      match parts with
      | .cons (.node .noArmLines .nil) .nil => exact ⟨.inr rfl, rfl⟩
      | .cons (.node .trailingArmLine lines) .nil =>
          exact absurd hnil (List.append_ne_nil_of_left_ne_nil (lines.tokens_ne_nil rfl) _)
      | .cons (.node .statementArmLine lines) .nil =>
          exact absurd hnil (List.append_ne_nil_of_left_ne_nil (lines.tokens_ne_nil rfl) _)
  | _ => exact absurd hnil (tokens_ne_nil_of_makesNode hmakes (by decide) parts)

/-- A node that covers some tokens of a text is placed well in it. -/
theorem Node.Covers.placed {text : Text} {us : List Token} {n : Node} (h : n.Covers filename us)
    (hrest : (lex text).rest = []) (hus : us <:+: (lex text).tokens) : n.Placed filename text := by
  have hsorted := (sorted_of_lex hrest).of_within hus
  obtain ⟨hspan, hempty, hchildren, hns⟩ := h
  refine ⟨?_, ?_, ?_, ?_⟩
  · intro hnone
    have hnil : us = [] := by
      cases us with
      | nil => rfl
      | cons t ts => exact absurd (hspan.symm.trans hnone) (Option.some_ne_none _)
    exact ⟨(hempty hnil).of_nil.1, hempty hnil⟩
  · intro s hs
    obtain ⟨t, ht, u, hu, rfl, hbounds⟩ := hsorted.exists_bounds (hspan.symm.trans hs)
    have hstart := standsIn_of_lex t (hus.subset ht)
    have hstop := standsIn_of_lex u (hus.subset hu)
    exact liesIn_ofExtent hstart.start_eq
      (Nat.lt_of_lt_of_le hstart.start_lt_stop (hbounds t ht).2) hstop.stop_le
  · intro c s' hc hs'
    rw [hchildren] at hc
    obtain ⟨c', hmem, hc⟩ := List.mem_map.1 hc
    obtain rfl := Value.node.inj hc
    obtain ⟨vs, hvs, hspan', -⟩ := hns.exists_of_mem hmem
    obtain ⟨t, ht, u, hu, rfl, -⟩ := (hsorted.of_within hvs).exists_bounds (hspan'.symm.trans hs')
    obtain ⟨s, hs⟩ := exists_tokensSpan filename (hvs.subset ht)
    obtain ⟨t', -, u', -, rfl, hbounds⟩ := hsorted.exists_bounds hs
    exact ⟨_, hspan.trans hs, Int.ofNat_le.2 (hbounds t (hvs.subset ht)).1,
      Int.ofNat_le.2 (hbounds u (hvs.subset hu)).2⟩
  · rw [hchildren, List.pairwise_map]
    refine hns.pairwise ?_
    rintro vs ws before between after c d rfl ⟨hc, -⟩ ⟨hd, -⟩ c' d' s s' hc' hd' hs hs'
    obtain rfl := Value.node.inj hc'
    obtain rfl := Value.node.inj hd'
    have hvs : vs <:+: before ++ (vs ++ (between ++ (ws ++ after))) :=
      ⟨before, between ++ (ws ++ after), List.append_assoc _ _ _⟩
    have hws : ws <:+: before ++ (vs ++ (between ++ (ws ++ after))) :=
      ⟨before ++ (vs ++ between), after, by simp only [List.append_assoc]⟩
    obtain ⟨_, -, u, hu, rfl, -⟩ := (hsorted.of_within hvs).exists_bounds (hc.symm.trans hs)
    obtain ⟨t, ht, _, -, rfl, -⟩ := (hsorted.of_within hws).exists_bounds (hd.symm.trans hs')
    have hpair := hsorted.2.sublist (List.sublist_append_right before _)
    have hlater : t ∈ between ++ (ws ++ after) :=
      List.mem_append_right _ (List.mem_append_left _ ht)
    exact Int.ofNat_le.2 ((List.pairwise_append.1 hpair).2.2 u hu t hlater)

end Spruce
