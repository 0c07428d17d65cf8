import Spruce.Proofs.Meaning.LoneExpressions
import Spruce.Proofs.Meaning.Resolved
import Spruce.Proofs.Reference.Failures

set_option autoImplicit false

/-!
# Failures that expect nothing

A failure lists the terminals that could come in its place. The list is empty just when a text that
is read as an expression goes on behind an expression with a newline after it: there only the end
could come, which is no terminal (`expected_eq_nil_iff`). All other tokens that some text begins
with can go on: those of a program as one more item or newline may always follow
(`Derivation.exists_longer_program`), those of an expression as a newline may follow unless one does
already, and those of no whole text as they are the beginning of one.

Main definition: `Start.IsEndedBy`, tokens that nothing can follow.
-/

namespace Spruce

variable {start : Start} {filename : Option String} {text : Text} {e : ParseFailure}

/-! ## Tokens that can go on -/

/-- One more token can follow some items. -/
theorem Derivation.exists_longer_items : (d : Derivation (.sub .items)) →
    ∃ (t : Token) (d' : Derivation (.sub .items)), d.tokens ++ [t] <+: d'.tokens
  | noItems => by
      obtain ⟨item⟩ := Derivation.nonempty (.sub .item)
      obtain ⟨t, ts, hcons⟩ := List.exists_cons_of_ne_nil (item.tokens_ne_nil rfl)
      refine ⟨t, someItems item (.node .lastItem .nil), ?_⟩
      rw [noItems_tokens, someItems_tokens, hcons]
      exact ⟨ts ++ [], rfl⟩
  | someItems item (.node .lastItem .nil) => by
      refine ⟨.lineFeed, someItems item (nextItems _ Token.lineFeed_kind noItems), [], ?_⟩
      rw [someItems_tokens, someItems_tokens, nextItems_tokens, noItems_tokens, List.append_nil]
      exact congrArg (· ++ _) (List.append_nil item.tokens)
  | someItems item (nextItems newline h items) => by
      obtain ⟨t, items', hitems'⟩ := exists_longer_items items
      refine ⟨t, someItems item (nextItems newline h items'), ?_⟩
      rw [someItems_tokens, someItems_tokens, nextItems_tokens, nextItems_tokens,
        List.append_assoc, List.prefix_append_right_inj]
      exact (List.prefix_cons_inj newline).2 hitems'
termination_by d => d.tokens.length
decreasing_by
  show items.tokens.length < (someItems item (nextItems newline h items)).tokens.length
  rw [someItems_tokens, nextItems_tokens, List.length_append, List.length_cons]
  omega

theorem Derivation.exists_longer_program (d : Derivation (.sub .program)) :
    ∃ (t : Token) (d' : Derivation (.sub .program)), d.tokens ++ [t] <+: d'.tokens := by
  match d with
  | program before items =>
      obtain ⟨t, items', hitems'⟩ := items.exists_longer_items
      refine ⟨t, program before items', ?_⟩
      rw [program_tokens, program_tokens, List.append_assoc, List.prefix_append_right_inj]
      exact hitems'

/-! ## Tokens that nothing can follow -/

/-- Tokens of a whole text that nothing can follow: an expression and a newline behind it. -/
structure Start.IsEndedBy (start : Start) (ts : List Token) : Prop where
  start_eq : start = .expression
  sentence : start.Sentence (kinds ts)
  newline_last : ∃ t ∈ ts.getLast?, t.kind = .newline

theorem Start.Sentence.viable {ts : List Terminal} (h : start.Sentence ts) : start.Viable ts :=
  ⟨[], by rwa [List.append_nil]⟩

/-- A derivation of a whole text has ended if no longer one goes on from it. -/
theorem Start.exists_longer_iff (d : Derivation start.goal) :
    (∃ (t : Token) (d' : Derivation start.goal), d.tokens ++ [t] <+: d'.tokens) ↔
      ¬start.IsEndedBy d.tokens := by
  cases start with
  | program =>
      refine iff_of_true d.exists_longer_program fun h => ?_
      exact Start.noConfusion h.start_eq
  | expression =>
      refine d.exists_longer_loneExpression_iff.trans ⟨fun hlast h => ?_, fun hnot t ht => ?_⟩
      · obtain ⟨t, ht, hnewline⟩ := h.newline_last
        exact of_decide_eq_false (hlast t ht) hnewline
      · refine decide_eq_false fun hnewline => ?_
        exact hnot ⟨rfl, Start.sentence_iff.2 ⟨d, rfl⟩, t, ht, hnewline⟩

/-- Tokens that a text begins with can go on unless they have ended. -/
theorem Start.exists_viable_concat_iff {ts : List Token} (h : start.Viable (kinds ts)) :
    (∃ k, start.Viable (kinds ts ++ [k])) ↔ ¬start.IsEndedBy ts := by
  obtain ⟨d, later, hd⟩ := Start.viable_iff.1 h
  cases later with
  -- the tokens are a whole text
  | nil =>
      obtain rfl : d.tokens = ts := by rw [← hd, List.append_nil]
      rw [← Start.exists_longer_iff]
      constructor
      · rintro ⟨k, hk⟩
        obtain ⟨t, d', -, hd'⟩ := Start.viable_concat_iff.1 hk
        exact ⟨t, d', hd'⟩
      · rintro ⟨t, d', hd'⟩
        exact ⟨t.kind, Start.viable_concat_iff.2 ⟨t, d', rfl, hd'⟩⟩
  -- they are the beginning of a longer one
  | cons t later =>
      have hlonger : ts ++ [t] <+: d.tokens := ⟨later, by rw [List.append_assoc]; exact hd⟩
      refine iff_of_true ⟨t.kind, Start.viable_concat_iff.2 ⟨t, d, rfl, hlonger⟩⟩ fun hended => ?_
      obtain ⟨d₀, rfl⟩ := Start.sentence_iff.1 hended.sentence
      exact Start.exists_longer_iff d₀ |>.1 ⟨t, d, hlonger⟩ hended

/-- Nothing is awaited just where nothing can follow. -/
theorem awaited_eq_nil_iff {ts : List Token} (h : start.Viable (kinds ts)) :
    ((Readings.initial start.goal).after ts).awaited = [] ↔ start.IsEndedBy ts := by
  have hmem (k : Terminal) : k ∈ ((Readings.initial start.goal).after ts).awaited ↔
      start.Viable (kinds ts ++ [k]) :=
    Readings.mem_awaited_after_iff.trans Start.viable_concat_iff.symm
  rw [List.eq_nil_iff_forall_not_mem, ← not_exists, exists_congr hmem,
    Start.exists_viable_concat_iff h, not_not]

/-! ## What failures expect -/

/-- A token behind an expression and a newline is not expected, and nothing else is. -/
theorem exists_fails_of_isEndedBy (filename : Option String) {before later : List Token}
    {token : Token} (htokens : (lex text).tokens = before ++ token :: later)
    (h : start.IsEndedBy before) :
    ∃ e, Fails start filename text e ∧ e.expected = [] ∧ e.cause = .unexpected token.kind ∧
      e.position = token.start := by
  have hviable := h.sentence.viable
  have hstop : ¬start.Viable (kinds (before ++ [token])) := by
    rw [kinds_append]
    exact fun hnext => (Start.exists_viable_concat_iff hviable).1 ⟨_, hnext⟩ h
  exact ⟨_, .obstacle htokens hviable hstop, (awaited_eq_nil_iff hviable).2 h, rfl, rfl⟩

/-- What a failure expects is never empty but at a token behind an expression and a newline, in a
text that is read as an expression. -/
theorem expected_eq_nil_iff (h : (parse start filename text).outcome = .error e) :
    e.expected = [] ↔ start = .expression ∧ ∃ before newline token later,
      (lex text).tokens = before ++ newline :: token :: later ∧ newline.kind = .newline ∧
        start.Sentence (kinds (before ++ [newline])) ∧
        e.cause = .unexpected token.kind ∧ e.position = token.start := by
  constructor
  · intro hnil
    cases parse_eq_error_iff.1 h with
    | @obstacle before later token htokens hbefore hstop =>
        obtain ⟨hstart, hsentence, newline, hlast, hnewline⟩ := (awaited_eq_nil_iff hbefore).1 hnil
        obtain ⟨before, rfl⟩ := List.getLast?_eq_some_iff.1 hlast
        refine ⟨hstart, before, newline, token, later, ?_, hnewline, hsentence, rfl, rfl⟩
        rw [htokens, List.append_assoc]
        rfl
    | unrecognised _ _ =>
        have hne : startingTerminals ≠ [] := by decide
        exact absurd hnil hne
    | unfinished hviable _ hsentence =>
        exact absurd ((awaited_eq_nil_iff hviable).1 hnil).sentence hsentence
    | detached _ _ _ => exact absurd hnil (List.cons_ne_nil _ _)
  · rintro ⟨hstart, before, newline, token, later, htokens, hnewline, hsentence, -, -⟩
    rw [List.append_cons] at htokens
    obtain ⟨e', he', hnil, -⟩ := exists_fails_of_isEndedBy filename htokens
      ⟨hstart, hsentence, newline, List.getLast?_concat, hnewline⟩
    obtain rfl : e = e' := Except.error.inj (h.symm.trans he'.parse)
    exact hnil

/-- The lexemes of two names, one a line. -/
def twoLines : List Lexeme :=
  [⟨some .identifier, ['a']⟩, ⟨some .newline, ['\n']⟩, ⟨some .identifier, ['b']⟩]

/-- The first name with the newline behind it. -/
def firstName : Derivation (.sub .loneExpression) :=
  .loneExpression .noNewline (Derivation.asExpression (nameTerm 'a' .origin))
    (.someNewline (.at .newline ['\n'] ⟨1, 1, 2⟩) rfl)

theorem lex_twoLines :
    (lex (textOf twoLines)).tokens = firstName.tokens ++ [.at .identifier ['b'] ⟨2, 2, 1⟩] := by
  have hcut : AreCut twoLines := .cons rfl (.cons rfl (.cons rfl .nil))
  exact (lex_textOf hcut).2

theorem isEndedBy_firstName : Start.expression.IsEndedBy firstName.tokens :=
  ⟨rfl, Start.sentence_iff.2 ⟨firstName, rfl⟩, _, rfl, rfl⟩

theorem expected_eq_nil_twoLines :
    ∃ e, (parse .expression none (textOf twoLines)).outcome = .error e ∧ e.expected = [] := by
  obtain ⟨e, he, -, hcause, hposition⟩ :=
    exists_fails_of_isEndedBy none lex_twoLines isEndedBy_firstName
  refine ⟨e, he.parse, (expected_eq_nil_iff he.parse).2 ⟨rfl, ?_⟩⟩
  exact ⟨_, _, _, [], lex_twoLines, rfl, isEndedBy_firstName.sentence, hcause, hposition⟩

/-- Not every failure says what was expected. -/
theorem not_expected_ne_nil :
    ¬∀ (start : Start) (filename : Option String) (text : Text) (e : ParseFailure),
      (parse start filename text).outcome = .error e → e.descriptions ≠ [] := by
  intro h
  obtain ⟨e, he, hnil, -, -⟩ := exists_fails_of_isEndedBy none lex_twoLines isEndedBy_firstName
  refine h .expression none (textOf twoLines) e he.parse ?_
  rw [ParseFailure.descriptions, hnil]
  rfl

end Spruce
