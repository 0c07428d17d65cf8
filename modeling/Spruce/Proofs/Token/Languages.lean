import Spruce.Proofs.Token.Longest
import Mathlib.Computability.Language

set_option autoImplicit false

/-!
# The languages of the terminals

What texts belong to each terminal, and to the white space that is dropped, written as the grammar
writes them: by concatenation, choice and repetition of characters of a class
(`Terminal.language`, `whiteSpace`). A text is lexical if it belongs to one of them
(`Text.IsLexical`).

The classes of lexemes say the same of each terminal alone (`mem_identifier_iff`, `mem_number_iff`,
`mem_newline_iff`, `mem_whiteSpace_iff`); together they leave only the choice between a keyword and
an identifier, in which the keyword wins (`isProper_some_iff`, `isProper_none_iff`).
-/

namespace Spruce

open scoped Computability

/-! ## Characters, choice and repetition -/

/-- The one-character texts of a class. -/
def oneOf (p : Char → Bool) : Language Char := {w | ∃ c, p c = true ∧ w = [c]}

/-- A text of a language or nothing. -/
def optional (l : Language Char) : Language Char := 1 + l

/-- One or more texts of a language. -/
def repeated (l : Language Char) : Language Char := l * l∗

theorem mem_optional {l : Language Char} {w : Text} : w ∈ optional l ↔ w = [] ∨ w ∈ l := by
  rw [optional, Language.mem_add, Language.mem_one]

theorem mem_repeated {l : Language Char} {w : Text} :
    w ∈ repeated l ↔ ∃ ws : List Text, ws ≠ [] ∧ (∀ v ∈ ws, v ∈ l) ∧ w = ws.flatten := by
  rw [repeated, Language.mem_mul]
  constructor
  · rintro ⟨v, hv, _, ⟨vs, rfl, hvs⟩, rfl⟩
    exact ⟨v :: vs, List.cons_ne_nil v vs, List.forall_mem_cons.2 ⟨hv, hvs⟩, rfl⟩
  · rintro ⟨ws, hne, hws, rfl⟩
    obtain ⟨v, vs, rfl⟩ := List.exists_cons_of_ne_nil hne
    obtain ⟨hv, hvs⟩ := List.forall_mem_cons.1 hws
    exact ⟨v, hv, vs.flatten, ⟨vs, rfl, hvs⟩, rfl⟩

/-- A repeated class makes the texts of characters of the class. -/
theorem mem_kstar_oneOf {p : Char → Bool} {w : Text} :
    w ∈ (oneOf p)∗ ↔ ∀ c ∈ w, p c = true := by
  rw [Language.mem_kstar]
  constructor
  · rintro ⟨ws, rfl, hws⟩ c hc
    obtain ⟨v, hv, hc⟩ := List.mem_flatten.1 hc
    obtain ⟨d, hd, rfl⟩ := hws v hv
    obtain rfl : c = d := List.mem_singleton.1 hc
    exact hd
  · intro h
    refine ⟨w.map fun c => [c], ?_, ?_⟩
    · rw [← List.flatMap_def, List.flatMap_singleton']
    · intro v hv
      obtain ⟨c, hc, rfl⟩ := List.mem_map.1 hv
      exact ⟨c, h c hc, rfl⟩

theorem mem_repeated_oneOf {p : Char → Bool} {w : Text} :
    w ∈ repeated (oneOf p) ↔ w ≠ [] ∧ ∀ c ∈ w, p c = true := by
  rw [repeated, Language.mem_mul]
  constructor
  · rintro ⟨_, ⟨c, hc, rfl⟩, v, hv, rfl⟩
    exact ⟨List.cons_ne_nil c v, List.forall_mem_cons.2 ⟨hc, mem_kstar_oneOf.1 hv⟩⟩
  · rintro ⟨hne, hw⟩
    obtain ⟨c, v, rfl⟩ := List.exists_cons_of_ne_nil hne
    obtain ⟨hc, hv⟩ := List.forall_mem_cons.1 hw
    exact ⟨[c], ⟨c, hc, rfl⟩, v, mem_kstar_oneOf.2 hv, rfl⟩

/-! ## Terminals -/

/-- An exponent mark. -/
def isExponentMark (c : Char) : Bool := c = 'e' || c = 'E'

/-- A decimal point with any digits after it. -/
def fractionLanguage : Language Char := {['.']} * (oneOf isDigit)∗

/-- An exponent mark with digits after it, and a sign between them or not. -/
def exponentLanguage : Language Char :=
  oneOf isExponentMark * (optional (oneOf isSign) * repeated (oneOf isDigit))

/-- A line feed with blanks after it, and a carriage return before it or not. -/
def lineBreakLanguage : Language Char := optional {['\r']} * ({['\n']} * (oneOf isBlank)∗)

/-- The texts that belong to a terminal. -/
def Terminal.language : Terminal → Language Char
  | .identifier => oneOf isLetter * (oneOf fun c => isLetter c || isDigit c)∗
  | .number => repeated (oneOf isDigit) * (optional fractionLanguage * optional exponentLanguage)
  | .newline => repeated lineBreakLanguage
  | t => {t.spelling}

/-- The texts that are dropped. -/
def whiteSpace : Language Char := repeated (oneOf isBlank)

/-- A text that belongs to some terminal or is dropped. -/
def Text.IsLexical (w : Text) : Prop := w ∈ whiteSpace ∨ ∃ t : Terminal, w ∈ t.language

/-! ## Each terminal alone -/

theorem mem_identifier_iff {w : Text} : w ∈ Terminal.identifier.language ↔ w.isName = true := by
  rw [Terminal.language, Language.mem_mul]
  constructor
  · rintro ⟨_, ⟨c, hc, rfl⟩, cs, hcs, rfl⟩
    exact Bool.and_eq_true_iff.2 ⟨hc, List.all_eq_true.2 (mem_kstar_oneOf.1 hcs)⟩
  · intro h
    cases w with
    | nil => exact absurd h Bool.false_ne_true
    | cons c cs =>
        obtain ⟨hc, hcs⟩ := Bool.and_eq_true_iff.1 h
        exact ⟨[c], ⟨c, hc, rfl⟩, cs, mem_kstar_oneOf.2 (List.all_eq_true.1 hcs), rfl⟩

theorem mem_optional_fractionLanguage_iff {w : Text} :
    w ∈ optional fractionLanguage ↔ w.IsFractionPart := by
  rw [mem_optional, fractionLanguage, Language.mem_mul, Text.IsFractionPart]
  refine or_congr Iff.rfl ⟨?_, ?_⟩
  · rintro ⟨_, rfl, ds, hds, rfl⟩
    exact ⟨ds, mem_kstar_oneOf.1 hds, rfl⟩
  · rintro ⟨ds, hds, rfl⟩
    exact ⟨['.'], rfl, ds, mem_kstar_oneOf.2 hds, rfl⟩

theorem mem_signedDigits_iff {w : Text} :
    w ∈ optional (oneOf isSign) * repeated (oneOf isDigit) ↔ w.IsExponent := by
  rw [Language.mem_mul]
  constructor
  · rintro ⟨sign, hsign, ds, hds, rfl⟩
    obtain ⟨hne, hds⟩ := mem_repeated_oneOf.1 hds
    rcases mem_optional.1 hsign with rfl | ⟨c, hc, rfl⟩
    · exact .unsigned hne hds
    · exact .signed hc hne hds
  · intro h
    cases h with
    | unsigned hne hds =>
        exact ⟨[], mem_optional.2 (.inl rfl), w, mem_repeated_oneOf.2 ⟨hne, hds⟩, rfl⟩
    | @signed c ds hc hne hds =>
        exact ⟨[c], mem_optional.2 (.inr ⟨c, hc, rfl⟩), ds, mem_repeated_oneOf.2 ⟨hne, hds⟩, rfl⟩

theorem mem_optional_exponentLanguage_iff {w : Text} :
    w ∈ optional exponentLanguage ↔ w.IsExponentPart := by
  rw [mem_optional, exponentLanguage, Language.mem_mul, Text.IsExponentPart]
  refine or_congr Iff.rfl ⟨?_, ?_⟩
  · rintro ⟨_, ⟨mark, hmark, rfl⟩, es, hes, rfl⟩
    have hmark : mark = 'e' ∨ mark = 'E' := by simpa [isExponentMark] using hmark
    exact ⟨mark, es, hmark, mem_signedDigits_iff.1 hes, rfl⟩
  · rintro ⟨mark, es, hmark, hes, rfl⟩
    have hmark : isExponentMark mark = true := by simpa [isExponentMark] using hmark
    exact ⟨[mark], ⟨mark, hmark, rfl⟩, es, mem_signedDigits_iff.2 hes, rfl⟩

theorem mem_number_iff {w : Text} : w ∈ Terminal.number.language ↔ w.IsNumber := by
  rw [Terminal.language, Language.mem_mul, Text.IsNumber]
  constructor
  · rintro ⟨integer, hinteger, _, hparts, rfl⟩
    obtain ⟨fraction, hfraction, exponent, hexponent, rfl⟩ := Language.mem_mul.1 hparts
    obtain ⟨hne, hdigits⟩ := mem_repeated_oneOf.1 hinteger
    exact ⟨integer, fraction, exponent, hne, hdigits,
      mem_optional_fractionLanguage_iff.1 hfraction, mem_optional_exponentLanguage_iff.1 hexponent,
      rfl⟩
  · rintro ⟨integer, fraction, exponent, hne, hdigits, hfraction, hexponent, rfl⟩
    refine ⟨integer, mem_repeated_oneOf.2 ⟨hne, hdigits⟩, _, Language.mem_mul.2 ?_, rfl⟩
    exact ⟨fraction, mem_optional_fractionLanguage_iff.2 hfraction, exponent,
      mem_optional_exponentLanguage_iff.2 hexponent, rfl⟩

theorem mem_lineBreakLanguage_iff {w : Text} : w ∈ lineBreakLanguage ↔ w.IsLineBreak := by
  rw [lineBreakLanguage, Language.mem_mul, Text.IsLineBreak]
  constructor
  · rintro ⟨returns, hreturns, _, hfeed, rfl⟩
    obtain ⟨_, rfl, indent, hindent, rfl⟩ := Language.mem_mul.1 hfeed
    refine ⟨indent, mem_kstar_oneOf.1 hindent, ?_⟩
    rcases mem_optional.1 hreturns with rfl | rfl
    · exact .inl rfl
    · exact .inr rfl
  · rintro ⟨indent, hindent, hw⟩
    have hfeed : '\n' :: indent ∈ ({['\n']} * (oneOf isBlank)∗ : Language Char) :=
      Language.mem_mul.2 ⟨['\n'], rfl, indent, mem_kstar_oneOf.2 hindent, rfl⟩
    rcases hw with rfl | rfl
    · exact ⟨[], mem_optional.2 (.inl rfl), _, hfeed, rfl⟩
    · exact ⟨['\r'], mem_optional.2 (.inr rfl), _, hfeed, rfl⟩

theorem mem_newline_iff {w : Text} : w ∈ Terminal.newline.language ↔ w.IsLineRun := by
  rw [Terminal.language, mem_repeated, Text.IsLineRun]
  simp only [mem_lineBreakLanguage_iff]

theorem mem_whiteSpace_iff {w : Text} : w ∈ whiteSpace ↔ w ≠ [] ∧ w.IsBlanks :=
  mem_repeated_oneOf

/-- Keywords and symbols have one text each. -/
theorem mem_language_iff_of_spelled {t : Terminal} (ht : t ∈ Terminal.keywords ++ Terminal.symbols)
    {w : Text} : w ∈ t.language ↔ w = t.spelling := by
  cases t <;> first
    | exact Iff.rfl
    | exact absurd ht (by decide)

/-! ## Lexemes and languages -/

/-- The text of a keyword makes no other lexeme than the keyword. -/
theorem Lexeme.IsProper.kind_eq_keyword_iff {l : Lexeme} (h : l.IsProper) {k : Terminal}
    (hk : k ∈ Terminal.keywords) : l.kind = some k ↔ l.text = k.spelling := by
  have hkeyword : (⟨some k, k.spelling⟩ : Lexeme).IsProper := by
    have hword : (⟨some (wordKind k.spelling), k.spelling⟩ : Lexeme).IsProper :=
      .word (isName_spelling hk)
    rwa [(wordKind_eq_keyword_iff hk).2 rfl] at hword
  constructor
  · intro hkind
    cases h with
    | word h => exact (wordKind_eq_keyword_iff hk).1 (Option.some.inj hkind)
    | number h | newline h =>
        obtain rfl := Option.some.inj hkind
        exact absurd hk (by decide)
    | blanks hne h => exact absurd hkind (Option.some_ne_none k).symm
    | symbol h =>
        obtain rfl := Option.some.inj hkind
        have hnot : ∀ t ∈ Terminal.keywords, t ∉ Terminal.symbols := by decide
        exact absurd h (hnot _ hk)
  · intro htext
    exact congrArg Lexeme.kind (h.eq_of_text_eq hkeyword htext)

theorem Terminal.class_cases (t : Terminal) :
    t = .identifier ∨ t = .number ∨ t = .newline ∨ t ∈ keywords ∨ t ∈ symbols := by
  cases t <;> decide

/-- A text is a lexeme of a terminal just when it belongs to it and, unless the terminal is a
keyword itself, is none of the keywords. -/
theorem isProper_some_iff {t : Terminal} {w : Text} :
    (⟨some t, w⟩ : Lexeme).IsProper ↔
      w ∈ t.language ∧ (t ∉ Terminal.keywords → ∀ k ∈ Terminal.keywords, w ≠ k.spelling) := by
  constructor
  · intro h
    refine ⟨?_, fun ht k hk hw => ?_⟩
    · cases h with
      | word h =>
          rcases List.mem_cons.1 (wordKind_mem w) with hident | hk
          · rw [hident]
            exact mem_identifier_iff.2 h
          · rw [mem_language_iff_of_spelled (List.mem_append_left _ hk)]
            exact (wordKind_eq_keyword_iff hk).1 rfl
      | number h => exact mem_number_iff.2 h
      | newline h => exact mem_newline_iff.2 h
      | symbol h => exact (mem_language_iff_of_spelled (List.mem_append_right _ h)).2 rfl
    · obtain rfl : t = k := Option.some.inj ((h.kind_eq_keyword_iff hk).2 hw)
      exact ht hk
  · rintro ⟨hw, hnot⟩
    rcases t.class_cases with rfl | rfl | rfl | ht | ht
    · have hident : wordKind w = .identifier := wordKind_eq_identifier_iff.2 (hnot (by decide))
      exact hident ▸ .word (mem_identifier_iff.1 hw)
    · exact .number (mem_number_iff.1 hw)
    · exact .newline (mem_newline_iff.1 hw)
    · obtain rfl := (mem_language_iff_of_spelled (List.mem_append_left _ ht)).1 hw
      have hkind : wordKind t.spelling = t := (wordKind_eq_keyword_iff ht).2 rfl
      exact congrArg some hkind ▸ .word (isName_spelling ht)
    · obtain rfl := (mem_language_iff_of_spelled (List.mem_append_right _ ht)).1 hw
      exact .symbol ht

theorem isProper_none_iff {w : Text} : (⟨none, w⟩ : Lexeme).IsProper ↔ w ∈ whiteSpace := by
  rw [mem_whiteSpace_iff]
  constructor
  · intro h
    cases h with
    | blanks hne h => exact ⟨hne, h⟩
  · rintro ⟨hne, h⟩
    exact .blanks hne h

/-- The lexical texts are those of lexemes. -/
theorem Text.isLexical_iff {w : Text} : w.IsLexical ↔ ∃ l : Lexeme, l.IsProper ∧ l.text = w := by
  constructor
  · rintro (hw | ⟨t, hw⟩)
    · exact ⟨_, isProper_none_iff.2 hw, rfl⟩
    · by_cases hkeyword : t ∉ Terminal.keywords ∧ ∃ k ∈ Terminal.keywords, w = k.spelling
      -- the text of a keyword makes a lexeme of the keyword only
      · obtain ⟨-, k, hk, rfl⟩ := hkeyword
        refine ⟨_, isProper_some_iff.2 ⟨?_, fun hnot => absurd hk hnot⟩, rfl⟩
        exact (mem_language_iff_of_spelled (List.mem_append_left _ hk)).2 rfl
      · refine ⟨_, isProper_some_iff.2 ⟨hw, fun ht k hk hspelled => ?_⟩, rfl⟩
        exact hkeyword ⟨ht, k, hk, hspelled⟩
  · rintro ⟨⟨kind, w⟩, h, rfl⟩
    cases kind with
    | none => exact .inl (isProper_none_iff.1 h)
    | some t => exact .inr ⟨t, (isProper_some_iff.1 h).1⟩

end Spruce
