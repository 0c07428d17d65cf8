import Spruce.Proofs.Token.Joining
import Spruce.Proofs.Token.Languages
import Mathlib.Data.List.Chain

set_option autoImplicit false

/-!
# Maximal munch

What a text is cut into gives the text back, piece by piece, and each piece is the longest beginning
of what is left that belongs to any terminal or is white space (`Lexeme.IsLongestOf`,
`lex_maximal_munch`). Cutting ends just where nothing that is left begins with such a text
(`Text.StartsLexical`), be it the end of the text or a character that starts no token. Newlines
take in all that could come between them, so that no two of their tokens are next to each other.
-/

namespace Spruce

/-! ## The longest beginning -/

/-- A text that begins with some lexical text. -/
def Text.StartsLexical (cs : Text) : Prop := ∃ w : Text, w ≠ [] ∧ w <+: cs ∧ w.IsLexical

/-- A lexeme whose text is the longest that a text begins with of all that are lexical, and whose
kind is that of its text: the keyword that it spells, or else the terminal that it belongs to, or
nothing for white space. -/
structure Lexeme.IsLongestOf (cs : Text) (l : Lexeme) : Prop where
  text_ne_nil : l.text ≠ []
  isPrefix : l.text <+: cs
  isLexical : Text.IsLexical l.text
  length_le (w : Text) : w ≠ [] → w <+: cs → w.IsLexical → w.length ≤ l.text.length
  kind_eq_keyword_iff (k : Terminal) : k ∈ Terminal.keywords →
    (l.kind = some k ↔ l.text = k.spelling)
  kind_eq_some_iff (t : Terminal) : t ∉ Terminal.keywords →
    (l.kind = some t ↔ l.text ∈ t.language ∧ ∀ k ∈ Terminal.keywords, l.text ≠ k.spelling)
  kind_eq_none_iff : l.kind = none ↔ l.text ∈ whiteSpace

/-- The kind of a lexeme is any that its text can have. -/
theorem Lexeme.IsProper.kind_eq_iff {l : Lexeme} (h : l.IsProper) {kind : Option Terminal} :
    l.kind = kind ↔ (⟨kind, l.text⟩ : Lexeme).IsProper := by
  constructor
  · rintro rfl
    exact h
  · intro h'
    exact congrArg Lexeme.kind (h.eq_of_text_eq h' rfl)

theorem isLongestOf_of_lexeme {cs : Text} {l : Lexeme} (h : lexeme cs = some l) :
    l.IsLongestOf cs := by
  obtain ⟨hproper, hfront, hlongest⟩ := lexeme_eq_some_iff.1 h
  refine ⟨hproper.text_ne_nil, hfront, Text.isLexical_iff.2 ⟨l, hproper, rfl⟩, ?_, ?_, ?_, ?_⟩
  · intro w _ hw hlexical
    obtain ⟨l', hproper', rfl⟩ := Text.isLexical_iff.1 hlexical
    exact hlongest l' hproper' hw
  · exact fun k hk => hproper.kind_eq_keyword_iff hk
  · intro t ht
    rw [hproper.kind_eq_iff, isProper_some_iff]
    exact and_congr_right fun _ => forall_prop_of_true ht
  · rw [hproper.kind_eq_iff, isProper_none_iff]

/-- An exponent mark without digits belongs to no number. -/
example : lexeme ['1', 'e', '+'] = some ⟨some .number, ['1']⟩ := rfl

/-- Nothing is cut off just where no lexical text begins. -/
theorem lexeme_eq_none_iff {cs : Text} : lexeme cs = none ↔ ¬cs.StartsLexical := by
  constructor
  · rintro hnone ⟨w, -, hw, hlexical⟩
    obtain ⟨l, hproper, rfl⟩ := Text.isLexical_iff.1 hlexical
    obtain ⟨l', hl', -⟩ := hproper.length_le hw
    exact Option.some_ne_none l' (hl'.symm.trans hnone)
  · intro hnot
    cases hl : lexeme cs with
    | none => rfl
    | some l =>
        have hlongest := isLongestOf_of_lexeme hl
        exact absurd ⟨l.text, hlongest.text_ne_nil, hlongest.isPrefix, hlongest.isLexical⟩ hnot

/-! ## Characters that start nothing -/

/-- An exclamation mark starts nothing but the sign for being unequal. -/
theorem not_startsLexical_exclamation {cs : Text} (h : cs.head? ≠ some '=') :
    ¬Text.StartsLexical ('!' :: cs) := by
  rw [← lexeme_eq_none_iff, lexeme_mark (by decide), Option.map_eq_none_iff]
  cases cs with
  | nil => decide
  | cons c cs =>
      have hc : c ≠ '=' := fun heq => h (congrArg some heq)
      simp [symbol, Terminal.symbols, Terminal.spelling, hc.symm]

/-- A carriage return starts nothing but a line break. -/
theorem not_startsLexical_return {cs : Text} (h : cs.head? ≠ some '\n') :
    ¬Text.StartsLexical ('\r' :: cs) := by
  rw [← lexeme_eq_none_iff]
  apply lexeme_of_lone_break (by decide)
  rw [lineRun.eq_3 _ _ _ (by decide) ?_]
  · rfl
  · rintro ds - rfl
    exact h rfl

/-! ## Neighbouring newlines -/

/-- Two tokens that are not both newlines. -/
def Token.AreApart (t u : Token) : Prop := ¬(t.kind = .newline ∧ u.kind = .newline)

/-- What follows line breaks is no line break, and no blanks that one could follow. -/
theorem AreCut.isChain_place {ls : List Lexeme} (h : AreCut ls) (p : Position) :
    (place p ls).IsChain Token.AreApart := by
  induction h generalizing p with
  | nil => exact .nil
  | @cons l ls h hs ih =>
      cases hkind : l.kind with
      | none =>
          rw [place_cons_of_none hkind]
          exact ih _
      | some kind =>
          rw [place_cons_of_some hkind]
          refine List.isChain_cons.2 ⟨?_, ih _⟩
          rintro u hu ⟨hnewline, hnewline'⟩
          obtain rfl : kind = .newline := hnewline
          have hhead : ∀ m ∈ ls.head?, m.IsSolid := by
            intro m hm
            obtain ⟨ms, rfl⟩ := List.head?_eq_some_iff.1 hm
            rw [textOf_cons] at h
            exact isSolid_behind_newline h hkind (hs.isProper m List.mem_cons_self)
          have hnot := not_isNewline_of_head hhead _ u hu
          exact of_decide_eq_false hnot hnewline'

/-! ## What a text is cut into -/

/-- Each lexeme that is cut off is the longest that what is left begins with. -/
theorem AreCutBefore.isLongestOf {rest : Text} {before after : List Lexeme} {l : Lexeme}
    (h : AreCutBefore rest (before ++ l :: after)) :
    l.IsLongestOf (textOf (l :: after) ++ rest) := by
  induction before with
  | nil =>
      cases h with
      | cons h _ =>
          rw [textOf_cons, List.append_assoc]
          exact isLongestOf_of_lexeme h
  | cons m before ih =>
      cases h with
      | cons _ hs => exact ih hs

/-- Every text is cut, up to a place where nothing lexical stands, into tokens and white space that
together are the text up to there, each the longest that can stand where it does; no two newlines
come next to each other. -/
theorem lex_maximal_munch (text : Text) :
    ∃ ls : List Lexeme, textOf ls ++ (lex text).rest = text ∧
      (lex text).tokens = place .origin ls ∧
      (lex text).finish = Position.origin.advance (textOf ls) ∧
      (∀ before l after, ls = before ++ l :: after →
        l.IsLongestOf (textOf (l :: after) ++ (lex text).rest)) ∧
      (∀ before after, ls = before ++ after →
        (after = [] ↔ ¬(textOf after ++ (lex text).rest).StartsLexical)) ∧
      (∀ cs, cs.head? ≠ some '=' → ¬Text.StartsLexical ('!' :: cs)) ∧
      (∀ cs, cs.head? ≠ some '\n' → ¬Text.StartsLexical ('\r' :: cs)) ∧
      (lex text).tokens.IsChain Token.AreApart := by
  obtain ⟨ls, rest, rfl, hls, hrest, heq⟩ := exists_lexFrom_eq text
  rw [lex, heq]
  refine ⟨ls, rfl, rfl, rfl, ?_, ?_, ?_, ?_, hls.areCut.isChain_place .origin⟩
  · rintro before l after rfl
    exact hls.isLongestOf
  · rintro before after rfl
    constructor
    · rintro rfl
      exact lexeme_eq_none_iff.1 hrest
    -- where a lexeme is still to come a lexical text begins
    · intro hnot
      cases after with
      | nil => rfl
      | cons l after =>
          have hlongest := hls.isLongestOf
          exact absurd ⟨l.text, hlongest.text_ne_nil, hlongest.isPrefix, hlongest.isLexical⟩ hnot
  · exact fun cs => not_startsLexical_exclamation
  · exact fun cs => not_startsLexical_return

end Spruce
