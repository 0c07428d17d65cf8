import Spruce.Proofs.Meaning.Joined
import Spruce.Proofs.Meaning.Spans
import Spruce.Proofs.Reference.Failures

set_option autoImplicit false

/-!
# Places of failures

A failure that is found while a text is cut, one that is found at a token, one that is found at the
end and one that is found at a sign all tell the place by the text before it: its line by the line
feeds there, its column from the last of them (`failure_position`). Unless the text ends too early,
that place is before the end of the text, and what is before it is cut into tokens and blanks to its
end (`Position.IsReachedIn`).
-/

namespace Spruce

variable {start : Start} {filename : Option String} {text : Text} {e : ParseFailure}

/-! ## Beginnings of lines -/

/-- The last line of a text comes behind its last line feed, or is all of the text. -/
theorem exists_eq_append_lastLine (cs : Text) :
    ∃ front, cs = front ++ lastLine cs ∧ '\n' ∉ lastLine cs ∧
      (front = [] ∨ ∃ before, front = before ++ ['\n']) := by
  induction cs using List.reverseRecOn with
  | nil => exact ⟨[], rfl, List.not_mem_nil, .inl rfl⟩
  | append_singleton cs c ih =>
      rw [lastLine_concat]
      by_cases hc : c = '\n'
      · subst hc
        rw [if_pos rfl]
        exact ⟨cs ++ ['\n'], (List.append_nil _).symm, List.not_mem_nil, .inr ⟨cs, rfl⟩⟩
      · obtain ⟨front, hsplit, hline, hfront⟩ := ih
        rw [if_neg hc]
        refine ⟨front, ?_, ?_, hfront⟩
        · rw [← List.append_assoc, ← hsplit]
        · intro hmem
          rcases List.mem_append.1 hmem with hmem | hmem
          · exact hline hmem
          · exact hc (List.mem_singleton.1 hmem).symm

/-- The line of a place begins behind the last line feed before the place, or where the text begins
if there is none. -/
structure IsLineStart (text : Text) (offset begin : Nat) : Prop where
  le : begin ≤ offset
  follows : begin = 0 ∨ text[begin - 1]? = some '\n'
  noneBetween : '\n' ∉ (text.take offset).drop begin

/-- The beginning of a line is told by the length of the last line before the place. -/
theorem isLineStart_lineStart {offset : Nat} (h : offset ≤ text.length) :
    IsLineStart text offset (lineStart text offset) := by
  obtain ⟨front, hsplit, hline, hfront⟩ := exists_eq_append_lastLine (text.take offset)
  have hlength : offset = front.length + (lastLine (text.take offset)).length := by
    have hsum := congrArg List.length hsplit
    rwa [List.length_append, List.length_take_of_le h] at hsum
  have hbegin : lineStart text offset = front.length := by
    rw [lineStart]
    omega
  refine ⟨Nat.sub_le _ _, ?_, ?_⟩
  · rcases hfront with rfl | ⟨before, rfl⟩
    · exact .inl hbegin
    -- the line feed is the last character of what is before the line
    · right
      have hlt : before.length < offset := by
        rw [List.length_append, List.length_singleton] at hlength
        omega
      rw [hbegin, List.length_append, List.length_singleton, Nat.add_sub_cancel,
        ← List.getElem?_take_of_lt hlt, hsplit]
      simp
  · rw [hbegin, hsplit, List.drop_left]
    exact hline

/-! ## Places before the end -/

/-- A place before the end of a text at which a token may start: what is before it is cut to its
end. -/
structure Position.IsReachedIn (text : Text) (p : Position) : Prop where
  eq_advance : p = Position.origin.advance (text.take p.offset)
  offset_lt : p.offset < text.length
  rest_eq_nil : (lex (text.take p.offset)).rest = []
  tokens_isPrefix : (lex (text.take p.offset)).tokens <+: (lex text).tokens

/-- Lexemes that a text begins with lead to a place in it. -/
theorem Position.isReachedIn_advance {ls ms : List Lexeme} {rest : Text}
    (hls : AreCutBefore rest (ls ++ ms)) (hrest : lexeme rest = none)
    (hmore : textOf ms ++ rest ≠ []) :
    (Position.origin.advance (textOf ls)).IsReachedIn (textOf (ls ++ ms) ++ rest) := by
  have htake : (textOf (ls ++ ms) ++ rest).take (textOf ls).length = textOf ls := by
    rw [textOf_append, List.append_assoc, List.take_left]
  obtain ⟨hnil, htokens⟩ := lex_textOf hls.areCut.of_append_left
  have hpos := List.length_pos_iff.2 hmore
  refine ⟨?_, ?_, ?_, ?_⟩
  · rw [Position.advance_origin_offset, htake]
  · rw [Position.advance_origin_offset, textOf_append, List.append_assoc, List.length_append]
    omega
  · rw [Position.advance_origin_offset, htake, hnil]
  · rw [Position.advance_origin_offset, htake, htokens, lex, lexFrom_before hls hrest, place_append]
    exact List.prefix_append _ _

/-- A token starts at a place in the text. -/
theorem isReachedIn_start {t : Token} (h : t ∈ (lex text).tokens) : t.start.IsReachedIn text := by
  obtain ⟨ls, rest, rfl, hls, hrest, heq⟩ := exists_lexFrom_eq text
  rw [lex, heq] at h
  obtain ⟨before, after, hsplit⟩ := List.append_of_mem h
  obtain ⟨ls₁, l, ls₂, rfl, -, -, ht, -⟩ := exists_of_place_eq hsplit
  rw [congrArg Token.start ht]
  refine Position.isReachedIn_advance hls hrest ?_
  obtain ⟨c, cs, hcons⟩ := (hls.areCut.isProper l (by simp)).exists_cons
  rw [textOf_cons, hcons]
  exact List.cons_ne_nil _ _

/-- A text is left over at a place in it. -/
theorem isReachedIn_finish {c : Char} {rest : Text} (h : (lex text).rest = c :: rest) :
    (lex text).finish.IsReachedIn text := by
  obtain ⟨ls, rest', rfl, hls, hrest, heq⟩ := exists_lexFrom_eq text
  rw [lex, heq] at h ⊢
  obtain rfl : rest' = c :: rest := h
  have hall : AreCutBefore (c :: rest) (ls ++ []) := by rwa [List.append_nil]
  have hreached := Position.isReachedIn_advance hall hrest (List.cons_ne_nil c rest)
  rwa [List.append_nil] at hreached

/-! ## Failures -/

/-- A failure is at the end of a text that ends too early, and otherwise at a place before. -/
theorem Fails.position (h : Fails start filename text e) :
    (e.cause.failureClass = .unexpectedEnd → e.position = Position.origin.advance text) ∧
      (e.cause.failureClass ≠ .unexpectedEnd → e.position.IsReachedIn text) := by
  cases h with
  | obstacle htokens _ _ =>
      refine ⟨fun hclass => FailureClass.noConfusion hclass, fun _ => isReachedIn_start ?_⟩
      rw [htokens]
      exact List.mem_append_right _ List.mem_cons_self
  | unrecognised _ hrest =>
      exact ⟨fun hclass => FailureClass.noConfusion hclass, fun _ => isReachedIn_finish hrest⟩
  | unfinished _ _ _ => exact ⟨fun _ => rfl, fun hclass => absurd rfl hclass⟩
  | @detached d sign later _ htokens hsigns =>
      refine ⟨fun hclass => FailureClass.noConfusion hclass, fun _ => isReachedIn_start ?_⟩
      have hmem : sign ∈ (start.phrase d).tokens :=
        (start.phrase d).detachedSigns_subset (by rw [hsigns]; exact List.mem_cons_self)
      rwa [Start.phrase_tokens, htokens] at hmem

/-- The line and column of a failure are those of its offset, which is the end of a text that ends
too early and otherwise a place before the end, up to which the text is cut into tokens and
blanks. -/
theorem failure_position (h : (parse start filename text).outcome = .error e) :
    e.position.line = 1 + (text.take e.position.offset).count '\n' ∧
      (∃ begin, IsLineStart text e.position.offset begin ∧
        e.position.column = e.position.offset - begin + 1) ∧
      (e.cause.failureClass = .unexpectedEnd → e.position.offset = text.length) ∧
      (e.cause.failureClass ≠ .unexpectedEnd → e.position.offset < text.length ∧
        (lex (text.take e.position.offset)).rest = [] ∧
        (lex (text.take e.position.offset)).tokens <+: (lex text).tokens) := by
  obtain ⟨hend, hinside⟩ := (parse_eq_error_iff.1 h).position
  have hoffset : e.cause.failureClass = .unexpectedEnd → e.position.offset = text.length := by
    intro hclass
    rw [hend hclass, Position.advance_origin_offset]
  -- wherever it is, the place is told by the text before it
  have hplace : e.position = Position.origin.advance (text.take e.position.offset) ∧
      e.position.offset ≤ text.length := by
    by_cases hclass : e.cause.failureClass = .unexpectedEnd
    · refine ⟨?_, (hoffset hclass).le⟩
      rw [hoffset hclass, List.take_length]
      exact hend hclass
    · have hreached := hinside hclass
      exact ⟨hreached.eq_advance, hreached.offset_lt.le⟩
  obtain ⟨hadvance, hle⟩ := hplace
  rw [advance_origin] at hadvance
  refine ⟨congrArg Position.line hadvance, ⟨_, isLineStart_lineStart hle, ?_⟩, hoffset,
    fun hclass => ?_⟩
  · have hline := lastLine_length_le (text.take e.position.offset)
    have hlength : (text.take e.position.offset).length = e.position.offset :=
      List.length_take_of_le hle
    have hcolumn : e.position.column = (lastLine (text.take e.position.offset)).length + 1 :=
      congrArg Position.column hadvance
    rw [hcolumn, lineStart]
    omega
  · have hreached := hinside hclass
    exact ⟨hreached.offset_lt, hreached.rest_eq_nil, hreached.tokens_isPrefix⟩

/-- A number on the second line, with a blank between its sign and its digits. -/
def detachedLexemes : List Lexeme :=
  [⟨some .newline, ['\r', '\n', ' ', ' ']⟩, ⟨some .minus, ['-']⟩, ⟨none, [' ']⟩,
    ⟨some .number, ['1']⟩]

/-- What the number is read as. -/
def detachedDerivation : Derivation Start.expression.goal :=
  .node .loneExpression (.cons
    (.node .newline (.cons
      (.token .newline (.at .newline ['\r', '\n', ' ', ' '] .origin) rfl) .nil))
    (.cons
      (Derivation.asExpression (.node .numberTerm (.cons (.node .signedNumber (.cons
        (.node .minusSign (.cons (.token .minus (.at .minus ['-'] ⟨4, 2, 3⟩) rfl) .nil))
        (.cons (.token .number (.at .number ['1'] ⟨6, 2, 5⟩) rfl) .nil))) .nil)))
      (.cons (.node .noNewline .nil) .nil)))

theorem failure_position_detached :
    ∃ e, (parse .expression none (textOf detachedLexemes)).outcome = .error e ∧
      e.position = ⟨4, 2, 3⟩ ∧
      e.position.line = 1 + ((textOf detachedLexemes).take e.position.offset).count '\n' ∧
      (∃ begin, IsLineStart (textOf detachedLexemes) e.position.offset begin ∧
        e.position.column = e.position.offset - begin + 1) ∧
      e.position.offset < (textOf detachedLexemes).length ∧
      (lex ((textOf detachedLexemes).take e.position.offset)).rest = [] := by
  have hcut : AreCut detachedLexemes := .cons rfl (.cons rfl (.cons rfl (.cons rfl .nil)))
  obtain ⟨hrest, htokens⟩ := lex_textOf hcut
  have hfails : (parse .expression none (textOf detachedLexemes)).outcome =
      .error (signFailure none (.at .minus ['-'] ⟨4, 2, 3⟩)) :=
    parse_eq_error_iff.2 (.detached (d := detachedDerivation) hrest htokens.symm rfl)
  obtain ⟨hline, hcolumn, -, hinside⟩ := failure_position hfails
  obtain ⟨hlt, hcut, -⟩ := hinside FailureClass.noConfusion
  exact ⟨_, hfails, rfl, hline, hcolumn, hlt, hcut⟩

end Spruce
