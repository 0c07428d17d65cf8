import Mathlib.Data.List.Forall2
import Spruce.Proofs.Meaning.Carried
import Spruce.Proofs.Meaning.Slices
import Spruce.Proofs.Token.Joining

set_option autoImplicit false

/-!
# Programs joined by a line feed

Two programs joined by a line feed are a program: its items are those of the first and then those of
the second, the spans of which move with their text (`parse_join`). Newlines stand between items and
at either end of a program, and no item begins or ends with one, so that all that merges with the
line feed is what came after the last item of the first program and before the first item of the
second.

Main definitions: `Span.moved` and `Node.moved`, spans and trees further on in a text; and
`Derivation.items`, the items of a program.
-/

namespace Spruce

variable {filename : Option String}

/-! ## Trees further on in a text -/

/-- A span further on in a text, by some characters and lines. -/
def Span.moved (offset lines : Nat) (s : Span) : Span :=
  { s with start := s.start + offset, stop := s.stop + offset, line := s.line + lines }

/-- A tree further on in a text: every span in it is, and nothing else changes. -/
def Node.moved (offset lines : Nat) (n : Node) : Node :=
  n.map ⟨Option.map (Span.moved offset lines), id⟩

/-- The span of tokens is further on if they are. -/
theorem tokensSpan_moved (offset lines : Nat) (ts : List Token) :
    tokensSpan filename (ts.map (Token.moved offset lines)) =
      (tokensSpan filename ts).map (Span.moved offset lines) := by
  cases hfirst : ts.head? with
  | none =>
      obtain rfl := List.head?_eq_none_iff.1 hfirst
      rfl
  | some first =>
      obtain ⟨later, rfl⟩ := List.head?_eq_some_iff.1 hfirst
      have hlast := List.getLast?_eq_getLast_of_ne_nil (List.cons_ne_nil first later)
      have hfirst' : ((first :: later).map (Token.moved offset lines)).head? =
          some (first.moved offset lines) := rfl
      have hlast' := List.getLast?_map (f := Token.moved offset lines) (l := first :: later)
      rw [hlast, Option.map_some] at hlast'
      rw [tokensSpan_eq_some filename hfirst hlast, tokensSpan_eq_some filename hfirst' hlast',
        Option.map_some]
      simp only [Span.ofExtent, Span.moved, Token.moved, Position.moved, Int.natCast_add]

/-- Tokens further on in a text leave the same in a tree, but for spans that are further on. -/
theorem carries_moved (filename : Option String) (offset lines : Nat) :
    Carries ⟨Option.map (Span.moved offset lines), id⟩ ⟨id, id⟩ filename filename
      (fun t u => t.moved offset lines = u) where
  kind t u h := by
    subst h
    exact .inl rfl
  name t u h := by
    subst h
    rfl
  text t u h _ := by
    subst h
    rfl
  span ts us h := by
    rw [← List.forall₂_map_left_iff, List.forall₂_eq_eq_eq] at h
    subst h
    exact (tokensSpan_moved offset lines ts).symm

theorem bare_moved (offset lines : Nat) (ts : List Token) :
    bare (ts.map (Token.moved offset lines)) = bare ts := by
  induction ts with
  | nil => rfl
  | cons t ts ih =>
      have htouches : (t.moved offset lines).touches (ts.map (Token.moved offset lines)) =
          t.touches ts := by
        cases ts with
        | nil => rfl
        | cons u us => simp [Token.touches, Token.moved, Position.moved]
      rw [List.map_cons, bare, ih, htouches]
      rfl

/-- No sign is detached in a derivation from tokens that are the same but for their places, if none
was. -/
theorem Derivation.isTight_of_bare {x : Nonterminal} (hx : x ≠ .sign) {d d' : Derivation (.sub x)}
    (hroles : d'.roles x = d.roles x) (hbare : bare d.tokens = bare d'.tokens)
    (htight : d.IsTight) : d'.IsTight := by
  have hsub : Symbol.sub x ≠ .sub .sign := fun h => hx (Symbol.sub.inj h)
  rw [Derivation.IsTight, Derivation.detachedSigns_eq hx d hsub] at htight
  rw [Derivation.IsTight, Derivation.detachedSigns_eq hx d' hsub, hroles]
  exact detachedAmong_eq_nil_of_bare hbare htight

/-- Items are carried over to tokens further on in a text. -/
theorem exists_moved_items (offset lines : Nat) (filename : Option String)
    (d : Derivation (.sub .items)) (htight : d.IsTight) :
    ∃ d' : Derivation (.sub .items), d'.IsTight ∧
      d'.tokens = d.tokens.map (Token.moved offset lines) ∧
      (d'.understand filename).meaning =
        (d.understand filename).meaning.map (Node.moved offset lines) := by
  have htokens : List.Forall₂ (fun t u => Token.moved offset lines t = u) d.tokens
      (d.tokens.map (Token.moved offset lines)) := by
    rw [← List.forall₂_map_left_iff, List.forall₂_eq_eq_eq]
  obtain ⟨d', hd', hroles, hagree⟩ :=
    (carries_moved filename offset lines).exists_carried d (by decide) htokens
  refine ⟨d', ?_, hd', ?_⟩
  · apply Derivation.isTight_of_bare (by decide) (hroles .items) _ htight
    rw [hd']
    exact (bare_moved offset lines d.tokens).symm
  · have hmeaning : (d.understand filename).meaning.map (Node.moved offset lines) =
        (d'.understand filename).meaning.map (Node.map ⟨id, id⟩) := hagree
    rw [hmeaning]
    exact (List.map_id'' Node.map_id _).symm

/-! ## Newlines around items -/

/-- Tokens the last of which is no newline. -/
def EndsVisibly (ts : List Token) : Prop := ∃ before t, ts = before ++ [t] ∧ t.isNewline = false

theorem EndsVisibly.prepend {ts : List Token} (h : EndsVisibly ts) (before : List Token) :
    EndsVisibly (before ++ ts) := by
  obtain ⟨before', t, rfl, ht⟩ := h
  exact ⟨before ++ before', t, (List.append_assoc _ _ _).symm, ht⟩

theorem EndsVisibly.not_isNewline {ts : List Token} (h : EndsVisibly ts) :
    ∀ t ∈ ts.getLast?, t.isNewline = false := by
  obtain ⟨before, u, rfl, hu⟩ := h
  intro t ht
  rw [List.getLast?_concat] at ht
  obtain rfl := Option.some.inj ht
  exact hu

/-- Inline tokens end with no newline. -/
theorem endsVisibly_of_isInline {ts : List Token} (hne : ts ≠ [])
    (h : ∀ t ∈ ts, t.isInline = true) : EndsVisibly ts := by
  obtain ⟨before, t, rfl⟩ := (List.eq_nil_or_concat ts).resolve_left hne
  refine ⟨before, t, List.concat_eq_append, ?_⟩
  have hinline : t.isInline = true := h t (by simp)
  rw [Token.isNewline, decide_eq_false_iff_not]
  intro hkind
  rw [Token.isInline, hkind] at hinline
  exact Bool.noConfusion hinline

/-- Symbols end as the last of them does. -/
theorem Derivations.endsVisibly {s : Symbol} (hs : ∀ d : Derivation s, EndsVisibly d.tokens)
    (ss : List Symbol) (ds : Derivations (ss ++ [s])) : EndsVisibly ds.tokens := by
  rw [← Derivations.split_tokens ds]
  apply EndsVisibly.prepend
  match (Derivations.split ss ds).2 with
  | .cons last .nil =>
      rw [Derivations.tokens, Derivations.tokens, List.append_nil]
      exact hs last

theorem Derivation.endsVisibly_rightBrace (d : Derivation (.tok .rightBrace)) :
    EndsVisibly d.tokens := by
  match d with
  | .token _ t h => exact ⟨[], t, rfl, by rw [Token.isNewline, h]; rfl⟩

theorem Derivation.endsVisibly_caseExpr (d : Derivation (.sub .caseExpr)) :
    EndsVisibly d.tokens := by
  match d with
  | .node .caseExpr parts =>
      exact Derivations.endsVisibly endsVisibly_rightBrace Rule.caseExpr.parts.dropLast parts

theorem Derivation.endsVisibly_assignedValue (d : Derivation (.sub .assignedValue)) :
    EndsVisibly d.tokens := by
  match d with
  | .node .caseValue parts => exact Derivations.endsVisibly endsVisibly_caseExpr [] parts
  | .node .expressionValue parts =>
      refine Derivations.endsVisibly (fun e => ?_) [] parts
      exact endsVisibly_of_isInline (e.tokens_ne_nil rfl) (e.isInline_tokens rfl)

/-- An item ends with a brace or an expression. -/
theorem Derivation.endsVisibly_item (d : Derivation (.sub .item)) : EndsVisibly d.tokens := by
  match d with
  | .node .functionItem parts =>
      refine Derivations.endsVisibly (fun d => ?_) [] parts
      match d with
      | .node .functionDecl parts =>
          exact Derivations.endsVisibly endsVisibly_rightBrace
            Rule.functionDecl.parts.dropLast parts
  | .node .typeItem parts =>
      refine Derivations.endsVisibly (fun d => ?_) [] parts
      match d with
      | .node .typeDecl parts =>
          exact Derivations.endsVisibly endsVisibly_rightBrace Rule.typeDecl.parts.dropLast parts
  | .node .assignmentItem parts =>
      refine Derivations.endsVisibly (fun d => ?_) [] parts
      match d with
      | .node .assignment parts =>
          exact Derivations.endsVisibly endsVisibly_assignedValue [.sub .target] parts

/-- Items begin with a name. -/
theorem Derivation.not_isNewline_of_items (d : Derivation (.sub .items)) :
    ∀ t ∈ d.tokens.head?, t.isNewline = false := by
  intro t ht
  have hmem : ahead (d.tokens ++ []) ∈ lookahead [none] [.sub .items] :=
    d.ahead_mem (List.mem_singleton.2 ahead_nil)
  rw [List.append_nil, ahead, ht, Option.map_some] at hmem
  rw [Token.isNewline, decide_eq_false_iff_not]
  intro hkind
  rw [hkind] at hmem
  exact absurd hmem (by decide)

/-- A newline that may be left out is nothing else. -/
theorem Derivation.isNewline_of_optionalNewline (d : Derivation (.sub .optionalNewline)) :
    ∀ t ∈ d.tokens, t.isNewline = true := by
  match d with
  | .node .noNewline .nil => exact fun t ht => absurd ht List.not_mem_nil
  | .node .newline (.cons (.token _ t h) .nil) =>
      exact List.forall_mem_singleton.2 (decide_eq_true h)

/-! ## Programs and their items -/

/-- A program: items, perhaps with a newline before them. -/
@[match_pattern] def Derivation.program (before : Derivation (.sub .optionalNewline))
    (items : Derivation (.sub .items)) : Derivation (.sub .program) :=
  .node .program (.cons before (.cons items .nil))

/-- No items. -/
@[match_pattern] def Derivation.noItems : Derivation (.sub .items) := .node .noItems .nil

/-- An item with what follows it. -/
@[match_pattern] def Derivation.someItems (item : Derivation (.sub .item))
    (more : Derivation (.sub .moreItems)) : Derivation (.sub .items) :=
  .node .someItems (.cons item (.cons more .nil))

/-- A newline with the items after it. -/
@[match_pattern] def Derivation.nextItems (t : Token) (h : t.kind = .newline)
    (items : Derivation (.sub .items)) : Derivation (.sub .moreItems) :=
  .node .nextItems (.cons (.token _ t h) (.cons items .nil))

/-- The items of a program. -/
def Derivation.items : Derivation (.sub .program) → Derivation (.sub .items)
  | program _ items => items

section

variable {before : Derivation (.sub .optionalNewline)} {item : Derivation (.sub .item)}
  {more : Derivation (.sub .moreItems)} {t : Token} {h : t.kind = .newline}
  {items : Derivation (.sub .items)}

@[simp] theorem Derivation.program_tokens :
    (program before items).tokens = before.tokens ++ items.tokens :=
  congrArg (before.tokens ++ ·) (List.append_nil _)

@[simp] theorem Derivation.noItems_tokens : noItems.tokens = [] := rfl

@[simp] theorem Derivation.someItems_tokens :
    (someItems item more).tokens = item.tokens ++ more.tokens :=
  congrArg (item.tokens ++ ·) (List.append_nil _)

@[simp] theorem Derivation.nextItems_tokens : (nextItems t h items).tokens = t :: items.tokens :=
  congrArg (t :: ·) (List.append_nil _)

theorem Derivation.isTight_program :
    (program before items).IsTight ↔ before.IsTight ∧ items.IsTight :=
  (isTight_iff_parts (by decide)).trans Derivations.isTight_pair

theorem Derivation.isTight_someItems :
    (someItems item more).IsTight ↔ item.IsTight ∧ more.IsTight :=
  (isTight_iff_parts (by decide)).trans Derivations.isTight_pair

theorem Derivation.isTight_nextItems : (nextItems t h items).IsTight ↔ items.IsTight := by
  have hnewline : (Derivation.token .newline t h).IsTight := rfl
  refine (isTight_iff_parts (by decide)).trans (Derivations.isTight_pair.trans ?_)
  exact and_iff_right hnewline

/-- Newlines behind an item with what follows it come off behind what follows it. -/
theorem Derivation.rdropWhile_someItems (earlier : List Token) :
    (earlier ++ (someItems item more).tokens).rdropWhile Token.isNewline =
      earlier ++ (item.tokens ++ more.tokens.rdropWhile Token.isNewline) := by
  have hends : EndsVisibly (earlier ++ item.tokens) := item.endsVisibly_item.prepend earlier
  rw [someItems_tokens, ← List.append_assoc, rdropWhile_append hends.not_isNewline,
    List.append_assoc]

end

theorem Derivation.isTight_items (d : Derivation (.sub .program)) (htight : d.IsTight) :
    d.items.IsTight := by
  match d with
  | program before items => exact (isTight_program.1 htight).2

/-- A program is understood as its items. -/
theorem Derivation.understand_program (d : Derivation (.sub .program)) :
    (d.understand filename).meaning =
      Node.program (tokensSpan filename d.tokens)
        (.nodes (Nonterminal.items.nodes (d.items.understand filename).meaning)) := by
  match d with
  | program before items =>
      have hextent : ((program before items).understand filename).extent =
          tokensExtent (program before items).tokens := Derivation.understand_extent _
      rw [tokensSpan, ← hextent]
      rfl

/-- The newline that a program begins with comes off before its items. -/
theorem Derivation.items_tokens (d : Derivation (.sub .program)) :
    d.items.tokens = d.tokens.dropWhile Token.isNewline := by
  match d with
  | program before items =>
      exact (program_tokens ▸ dropWhile_append before.isNewline_of_optionalNewline
        items.not_isNewline_of_items).symm

/-! ## Joining programs -/

/-- Behind an item, what follows it may be followed by a newline and more items; a newline that it
ends with gives way to that one. -/
theorem Derivation.exists_joined_moreItems {newline : Token} (hnewline : newline.kind = .newline)
    {later : Derivation (.sub .items)} (hlater : later.IsTight) :
    (more : Derivation (.sub .moreItems)) → more.IsTight →
      ∃ d : Derivation (.sub .moreItems), d.IsTight ∧
        d.tokens = more.tokens.rdropWhile Token.isNewline ++ newline :: later.tokens ∧
        ∀ filename, Nonterminal.moreItems.nodes (d.understand filename).meaning =
          Nonterminal.moreItems.nodes (more.understand filename).meaning ++
            Nonterminal.items.nodes (later.understand filename).meaning
  | .node .lastItem .nil, _ =>
      ⟨nextItems newline hnewline later, isTight_nextItems.2 hlater, nextItems_tokens,
        fun _ => rfl⟩
  -- a newline with no items behind it is the one that gives way
  | nextItems t ht noItems, _ => by
      refine ⟨nextItems newline hnewline later, isTight_nextItems.2 hlater, ?_, fun _ => rfl⟩
      have hdrop : [t].rdropWhile Token.isNewline = [] :=
        List.rdropWhile_concat_pos Token.isNewline [] t (decide_eq_true ht)
      rw [nextItems_tokens, nextItems_tokens]
      exact congrArg (· ++ newline :: later.tokens) hdrop.symm
  -- no newline before an item does, as the item stands between it and the end
  | nextItems t ht (someItems item more), htight => by
      obtain ⟨hitem, hmore⟩ := isTight_someItems.1 (isTight_nextItems.1 htight)
      obtain ⟨d, hd, htokens, hmeaning⟩ := exists_joined_moreItems hnewline hlater more hmore
      refine ⟨nextItems t ht (someItems item d),
        isTight_nextItems.2 (isTight_someItems.2 ⟨hitem, hd⟩), ?_, fun filename => ?_⟩
      · have hdrop : (nextItems t ht (someItems item more)).tokens.rdropWhile Token.isNewline =
            t :: (item.tokens ++ more.tokens.rdropWhile Token.isNewline) := by
          rw [nextItems_tokens]
          exact rdropWhile_someItems [t]
        rw [hdrop, nextItems_tokens, someItems_tokens, htokens, List.cons_append, List.append_assoc]
      · exact congrArg ((item.understand filename).meaning :: ·) (hmeaning filename)
termination_by more => more.tokens.length
decreasing_by
  show more.tokens.length < (nextItems t ht (someItems item more)).tokens.length
  rw [nextItems_tokens, someItems_tokens, List.length_cons, List.length_append]
  omega

/-- A program goes on with a newline and more items; a newline that it ends with gives way to that
one. -/
theorem Derivation.exists_joined {newline : Token} (hnewline : newline.kind = .newline)
    {later : Derivation (.sub .items)} (hlater : later.IsTight) (d : Derivation (.sub .program))
    (htight : d.IsTight) :
    ∃ d' : Derivation (.sub .program), d'.IsTight ∧
      d'.tokens = d.tokens.rdropWhile Token.isNewline ++ newline :: later.tokens ∧
      ∀ filename, Nonterminal.items.nodes (d'.items.understand filename).meaning =
        Nonterminal.items.nodes (d.items.understand filename).meaning ++
          Nonterminal.items.nodes (later.understand filename).meaning := by
  match d with
  -- without items there is at most a newline, and the other takes its place
  | program before noItems =>
      let first : Derivation (.sub .optionalNewline) :=
        .node .newline (.cons (.token _ newline hnewline) .nil)
      have hfirst : first.IsTight := rfl
      refine ⟨program first later, isTight_program.2 ⟨hfirst, hlater⟩, ?_, fun _ => rfl⟩
      have hdrop : (program before noItems).tokens.rdropWhile Token.isNewline = [] := by
        rw [List.rdropWhile_eq_nil_iff, program_tokens, noItems_tokens, List.append_nil]
        exact before.isNewline_of_optionalNewline
      rw [hdrop, program_tokens]
      rfl
  | program before (someItems item more) =>
      obtain ⟨hbefore, hitems⟩ := isTight_program.1 htight
      obtain ⟨hitem, hmore⟩ := isTight_someItems.1 hitems
      obtain ⟨more', hmore', htokens, hmeaning⟩ :=
        exists_joined_moreItems hnewline hlater more hmore
      refine ⟨program before (someItems item more'),
        isTight_program.2 ⟨hbefore, isTight_someItems.2 ⟨hitem, hmore'⟩⟩, ?_, fun filename => ?_⟩
      · rw [program_tokens, program_tokens, rdropWhile_someItems, someItems_tokens, htokens]
        simp only [List.append_assoc]
      · exact congrArg ((item.understand filename).meaning :: ·) (hmeaning filename)

/-- A program node has the items that it was made of. -/
theorem program_inj {span span' : Option Span} {ms ns : List Node}
    (h : Node.program span (.nodes ms) = .program span' (.nodes ns)) : span = span' ∧ ms = ns := by
  obtain ⟨-, hspan, hfields⟩ := Node.mk.inj h
  obtain ⟨-, hitems⟩ := Value.sequence.inj (List.cons.inj hfields).1
  exact ⟨hspan, List.map_injective_iff.2 (fun _ _ => Value.node.inj) hitems⟩

/-- Two programs joined by a line feed are a program. Its items are those of the first, with their
spans, and then those of the second, every span of which is further on: by the length of the first
text and the line feed in characters, by the line feeds of the first text and the one between the
two in lines. The columns stay. -/
theorem parse_join (filename : Option String) (text text' : Text) (root root' : Node)
    (h : (parse .program filename text).outcome = .ok root)
    (h' : (parse .program filename text').outcome = .ok root') :
    ∃ span items span' items' joinedSpan,
      root = .program span (.nodes items) ∧ root' = .program span' (.nodes items') ∧
        (parse .program filename (text ++ '\n' :: text')).outcome =
          .ok (.program joinedSpan (.nodes (items ++
            items'.map (Node.moved (text.length + 1) (text.count '\n' + 1))))) := by
  obtain ⟨hrest, d, htokens, htight, rfl⟩ := parse_eq_ok_iff.1 h
  obtain ⟨hrest', d', htokens', htight', rfl⟩ := parse_eq_ok_iff.1 h'
  have hitems' : (Derivation.items d').IsTight := Derivation.isTight_items d' htight'
  -- the items of the second program, further on, behind the newline that the texts are joined by
  obtain ⟨hjoined, newline, hnewline, hlex⟩ := lex_join hrest hrest'
  obtain ⟨later, hlater, hlaterTokens, hmoved⟩ := exists_moved_items (text.length + 1)
    (text.count '\n' + 1) filename (Derivation.items d') hitems'
  obtain ⟨d'', htight'', htokens'', hmeaning⟩ :=
    Derivation.exists_joined hnewline hlater d htight
  have heq : d''.tokens = (lex (text ++ '\n' :: text')).tokens := by
    rw [hlex, htokens'', hlaterTokens, Derivation.items_tokens d', ← htokens, ← htokens']
    rfl
  have htree : (d''.understand filename).meaning = Node.program (tokensSpan filename d''.tokens)
      (.nodes (Nonterminal.items.nodes ((Derivation.items d).understand filename).meaning ++
        (Nonterminal.items.nodes ((Derivation.items d').understand filename).meaning).map
          (Node.moved (text.length + 1) (text.count '\n' + 1)))) := by
    rw [Derivation.understand_program, hmeaning]
    exact congrArg (fun ns => Node.program _ (.nodes (_ ++ ns))) hmoved
  exact ⟨_, _, _, _, _, Derivation.understand_program d, Derivation.understand_program d',
    parse_eq_ok_iff.2 ⟨hjoined, d'', heq, htight'', htree⟩⟩

/-- The program `a=(b)` may be written twice, one line below the other. -/
theorem parse_join_parenthesised :
    ∃ span, (parse .program none
      ['a', '=', '(', 'b', ')', '\n', 'a', '=', '(', 'b', ')']).outcome =
        .ok (.program span
          (.nodes [parenthesisedAssignment, parenthesisedAssignment.moved 6 1])) := by
  obtain ⟨_, items, _, items', span, hroot, hroot', hjoined⟩ :=
    parse_join none _ _ _ _ parse_parenthesised parse_parenthesised
  obtain ⟨-, rfl⟩ := program_inj hroot
  obtain ⟨-, rfl⟩ := program_inj hroot'
  exact ⟨span, hjoined⟩

end Spruce
