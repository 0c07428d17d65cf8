import Spruce.Parse
import Spruce.Proofs.Grammar.Unambiguous
import Spruce.Proofs.Reference.Preimage

set_option autoImplicit false

/-!
# The reference grammar is unambiguous

Phrases of a whole program, or of a lone expression, are the same if they have the same tokens. A
phrase records every choice, every optional part and every turn of a repetition, so that the tree
of a text never depends on which of several readings is preferred.

The statement goes back to the derivations that the phrases come from
(`Start.derivation_eq_of_tokens`).
-/

namespace Spruce

open Reference

/-- The construct that a whole text is a phrase of. -/
def Start.construct : Start → Construct
  | program => .program
  | expression => .loneExpression

/-- The phrase of a derivation of a whole text. -/
def Start.phrase : (start : Start) → Derivation start.goal → Phrase (.construct start.construct)
  | program, d => d.phrase
  | expression, d => d.phrase

namespace Start

variable {start : Start}

theorem exists_phrase_eq (phrase : Phrase (.construct start.construct)) :
    ∃ d : Derivation start.goal, start.phrase d = phrase := by
  cases start with
  | program => exact Derivation.exists_phrase_eq .program phrase
  | expression => exact Derivation.exists_phrase_eq .loneExpression phrase

theorem phrase_tokens (d : Derivation start.goal) : (start.phrase d).tokens = d.tokens := by
  cases start <;> exact d.phrase_tokens

/-- Derivations of a whole text are determined by their tokens. -/
theorem derivation_eq_of_tokens {d d' : Derivation start.goal} (h : d.tokens = d'.tokens) :
    d = d' := by
  have hend : none ∈ start.nonterminal.follow := by cases start <;> decide
  exact Derivation.tokens_injective hend h

end Start

/-- There is at most one phrase of a whole text with given tokens. -/
theorem Reference.Phrase.unambiguous (start : Start)
    (phrase phrase' : Phrase (.construct start.construct)) (h : phrase.tokens = phrase'.tokens) :
    phrase = phrase' := by
  obtain ⟨d, rfl⟩ := Start.exists_phrase_eq phrase
  obtain ⟨d', rfl⟩ := Start.exists_phrase_eq phrase'
  rw [Start.phrase_tokens, Start.phrase_tokens] at h
  rw [Start.derivation_eq_of_tokens h]

/-- The one phrase of a sign and a numeral. -/
theorem Reference.Phrase.unambiguous_signed :
    Start.expression.phrase
        (.node .loneExpression (.cons (.node .noNewline .nil) (.cons (.node .expression
          (.cons (.node .chain (.cons (.node .numberTerm (.cons (.node .signedNumber
            (.cons (.node .minusSign (.cons (.token .minus ⟨.minus, ['-'], .origin, 1⟩ rfl) .nil))
              (.cons (.token .number ⟨.number, ['1'], ⟨1, 1, 2⟩, 2⟩ rfl) .nil))) .nil))
            (.cons (.node .lastTerm .nil) .nil))) .nil)) (.cons (.node .noNewline .nil) .nil)))) =
      .construct .loneExpression (.both .absent (.both (.construct .expression (.both
        (.construct .term (.right (.right (.left (.construct .number (.both
          (.present (.construct .sign (.right (.token .minus ⟨.minus, ['-'], .origin, 1⟩ rfl))))
          (.token .number ⟨.number, ['1'], ⟨1, 1, 2⟩, 2⟩ rfl))))))) .done)) .absent)) :=
  Phrase.unambiguous .expression _ _ rfl

end Spruce
