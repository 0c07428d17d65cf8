import Mathlib.Tactic.IntervalCases
import Spruce.Proofs.Number.Decimals
import Spruce.Proofs.RoundTrip.Atoms
import Spruce.Tree.NumberLiteral

set_option autoImplicit false

/-!
# Values of number literals

The text of a literal is taken for a number piece by piece: the sign, the digits before and after
the decimal point in one row, and the exponent less the count of digits after the point
(`numeral?_literal`). The value of the literal is that number, rounded to the format, with the sign
that the literal has (`literal_value_rounded`).

Main definitions: `NumberParts`, the pieces of a literal, `NumberParts.magnitude`, the exact number
that they write, and `Node.HasValue`.
-/

namespace Spruce

/-! ## Characters of a literal -/

/-- The characters that number literals are made of. -/
def literalCharacters : Text :=
  ['0', '1', '2', '3', '4', '5', '6', '7', '8', '9', '+', '-', '.', 'e']

theorem mem_literalCharacters_of_isDigit {c : Char} (h : isDigit c = true) :
    c ∈ literalCharacters := by
  obtain ⟨hlow, hhigh⟩ := isDigit_iff.1 h
  rw [← Char.ofNat_toNat c]
  generalize c.toNat = n at hlow hhigh
  interval_cases n <;> decide

theorem mem_literalCharacters_of_isSign {c : Char} (h : isSign c = true) :
    c ∈ literalCharacters := by
  rcases (by simpa [isSign] using h : c = '+' ∨ c = '-') with rfl | rfl <;> decide

/-- They are no white space, stand for themselves as digits, and group no digits. Nor is one of them
in a word that is taken for a number. -/
theorem plain_of_mem_literalCharacters {c : Char} (h : c ∈ literalCharacters) :
    isWhiteSpace c = false ∧ plainDigit c = c ∧ c ≠ '_' ∧ c.toLower ≠ 'n' := by
  have hall : literalCharacters.all (fun c => !isWhiteSpace c && plainDigit c == c && c != '_' &&
      c.toLower != 'n') = true := by decide
  simpa [and_assoc] using List.all_eq_true.1 hall c h

/-! ## Texts that are read as they stand -/

theorem dropWhile_eq_self {f : Char → Bool} {cs : Text} (h : ∀ c ∈ cs, f c = false) :
    cs.dropWhile f = cs := by
  cases cs with
  | nil => rfl
  | cons c cs => rw [List.dropWhile_cons, h c List.mem_cons_self, if_neg Bool.false_ne_true]

theorem trimmed_eq_self {cs : Text} (h : ∀ c ∈ cs, isWhiteSpace c = false) : trimmed cs = cs := by
  rw [trimmed, dropWhile_eq_self h,
    dropWhile_eq_self fun c hc => h c (List.mem_reverse.1 hc), List.reverse_reverse]

theorem ungrouped?_eq_self {cs : Text} (h : ∀ c ∈ cs, c ≠ '_') : ungrouped? cs = some cs := by
  induction cs with
  | nil => rfl
  | cons c cs ih =>
      obtain ⟨hfirst, hlater⟩ := List.forall_mem_cons.1 h
      have hnext : ∀ ds, cs = '_' :: ds → False := by
        rintro ds rfl
        exact hlater '_' List.mem_cons_self rfl
      rw [ungrouped?.eq_3 c cs hnext, if_neg hfirst, ih hlater]
      rfl

/-- Words that are taken for numbers have a letter that literals do not have. -/
theorem unsignedNumeral?_eq_decimal {cs : Text} (h : ∀ c ∈ cs, c ∈ literalCharacters)
    (negative : Bool) : unsignedNumeral? negative cs = decimalNumeral? negative cs := by
  have hletter : 'n' ∉ cs.map Char.toLower := by
    intro hn
    obtain ⟨c, hc, hlower⟩ := List.mem_map.1 hn
    exact (plain_of_mem_literalCharacters (h c hc)).2.2.2 hlower
  have hinfinity : ∀ w ∈ infinityWords, 'n' ∈ w := by decide
  have hnotANumber : ∀ w ∈ notANumberWords, 'n' ∈ w := by decide
  rw [unsignedNumeral?, if_neg fun hw => hletter (hinfinity _ hw),
    if_neg fun hw => hletter (hnotANumber _ hw)]

/-- Characters of literals are taken as they stand. -/
theorem numeral?_eq_unsigned {cs : Text} (h : ∀ c ∈ cs, c ∈ literalCharacters) :
    numeral? cs = unsignedNumeral? (splitSign cs).1 (splitSign cs).2 := by
  have hplain : cs.map plainDigit = cs := by
    refine (List.map_congr_left fun c hc => ?_).trans (List.map_id cs)
    exact (plain_of_mem_literalCharacters (h c hc)).2.1
  rw [numeral?, trimmed_eq_self fun c hc => (plain_of_mem_literalCharacters (h c hc)).1, hplain,
    ungrouped?_eq_self fun c hc => (plain_of_mem_literalCharacters (h c hc)).2.2.1]
  rfl

/-! ## Pieces of a literal -/

section

variable {integer : Text} {fraction exponent : Option Text}

theorem mem_literalCharacters_of_mem_markedPiece {mark : Char} {piece : Option Text}
    (hmark : mark ∈ literalCharacters) (h : ∀ t ∈ piece, ∀ c ∈ t, c ∈ literalCharacters) :
    ∀ c ∈ markedPiece mark piece, c ∈ literalCharacters := by
  cases piece with
  | none => exact fun c hc => absurd hc List.not_mem_nil
  | some t => exact List.forall_mem_cons.2 ⟨hmark, h t rfl⟩

theorem mem_literalCharacters_of_mem_numeralText (h : IsNumeral integer fraction exponent) :
    ∀ c ∈ numeralText integer fraction exponent, c ∈ literalCharacters := by
  refine List.forall_mem_append.2 ⟨?_, List.forall_mem_append.2 ⟨?_, ?_⟩⟩
  · exact fun c hc => mem_literalCharacters_of_isDigit (h.integer_isDigits c hc)
  · refine mem_literalCharacters_of_mem_markedPiece (by decide) fun t ht c hc => ?_
    exact mem_literalCharacters_of_isDigit (h.fraction_isDigits t ht c hc)
  · refine mem_literalCharacters_of_mem_markedPiece (by decide) fun t ht => ?_
    cases h.exponent_isExponent t ht with
    | unsigned _ hds => exact fun c hc => mem_literalCharacters_of_isDigit (hds c hc)
    | signed hsign _ hds =>
        exact List.forall_mem_cons.2 ⟨mem_literalCharacters_of_isSign hsign,
          fun c hc => mem_literalCharacters_of_isDigit (hds c hc)⟩

/-- The number that an exponent with its sign writes. -/
def exponentValue (es : Text) : ℤ :=
  if (splitSign es).1 then -digitsValue (splitSign es).2 else digitsValue (splitSign es).2

/-- A sign is split off only where there is one. -/
theorem splitSign_of_isDigit {c : Char} (h : isDigit c = true) (cs : Text) :
    splitSign (c :: cs) = (false, c :: cs) := by
  refine splitSign.eq_3 _ ?_ ?_ <;> rintro ds hds <;> obtain ⟨rfl, -⟩ := List.cons.inj hds <;>
    exact absurd h (by decide)

/-- There are digits behind the sign of an exponent. -/
theorem splitSign_of_isExponent {es : Text} (h : es.IsExponent) :
    (splitSign es).2 ≠ [] ∧ (splitSign es).2.IsDigits := by
  cases h with
  | unsigned hne hds =>
      obtain ⟨d, ds, rfl⟩ := List.exists_cons_of_ne_nil hne
      rw [splitSign_of_isDigit (hds d List.mem_cons_self)]
      exact ⟨hne, hds⟩
  | @signed c ds hsign hne hds =>
      rcases (by simpa [isSign] using hsign : c = '+' ∨ c = '-') with rfl | rfl
      · exact ⟨hne, hds⟩
      · exact ⟨hne, hds⟩

theorem exponentValue?_markedPiece (h : ∀ t ∈ exponent, t.IsExponent) :
    exponentValue? (markedPiece 'e' exponent) = some ((exponent.map exponentValue).getD 0) := by
  cases exponent with
  | none => rfl
  | some es =>
      obtain ⟨hne, hdigits⟩ := splitSign_of_isExponent (h es rfl)
      exact if_pos ⟨.inl rfl, hne, List.all_eq_true.2 hdigits⟩

theorem opens_markedPiece_exponent (exponent : Option Text) :
    Text.Opens (fun c => !isDigit c) (markedPiece 'e' exponent) := by
  cases exponent with
  | none => exact fun c hc => absurd hc (Option.not_mem_none c)
  | some es => exact Text.opens_cons.2 (by decide)

theorem splitFraction_markedPiece (h : ∀ t ∈ fraction, t.IsDigits) :
    splitFraction (markedPiece '.' fraction ++ markedPiece 'e' exponent) =
      (fraction.getD [], markedPiece 'e' exponent) := by
  have hopens := opens_markedPiece_exponent exponent
  cases fraction with
  | none => cases exponent <;> rfl
  | some ds =>
      show (digits (ds ++ _), (ds ++ _).dropWhile isDigit) = _
      rw [digits_append (h ds rfl) hopens, dropWhile_append_of_opens (h ds rfl) hopens]
      rfl

theorem decimalNumeral?_numeralText (h : IsNumeral integer fraction exponent) (negative : Bool) :
    decimalNumeral? negative (numeralText integer fraction exponent) =
      some (.finite negative (integer ++ fraction.getD [])
        ((exponent.map exponentValue).getD 0 - (fraction.getD []).length)) := by
  have hafter : Text.Opens (fun c => !isDigit c)
      (markedPiece '.' fraction ++ markedPiece 'e' exponent) :=
    opens_markedPiece (by decide) (opens_markedPiece_exponent exponent) fraction
  rw [decimalNumeral?, numeralText, digits_append h.integer_isDigits hafter,
    dropWhile_append_of_opens h.integer_isDigits hafter,
    splitFraction_markedPiece h.fraction_isDigits]
  dsimp only
  rw [if_neg (List.append_ne_nil_of_left_ne_nil h.integer_ne_nil _),
    exponentValue?_markedPiece h.exponent_isExponent]
  rfl

end

/-! ## The number that a literal writes -/

/-- The pieces of a number literal, as they are written in a program. -/
structure NumberParts where
  sign : String
  integer : String
  fraction : Option String
  exponent : Option String
  isSign : sign = "" ∨ sign = "+" ∨ sign = "-"
  isNumeral : IsNumeral integer.toList (fraction.map String.toList) (exponent.map String.toList)

namespace NumberParts

/-- The literal with the given pieces. -/
def node (p : NumberParts) (span : Option Span) : Node :=
  .number span (.text p.sign) (.text p.integer) (.optionalText p.fraction)
    (.optionalText p.exponent)

/-- The digits after the decimal point. -/
def fractionDigits (p : NumberParts) : Text := (p.fraction.map String.toList).getD []

/-- The power of ten that the exponent tells. -/
def power (p : NumberParts) : ℤ := ((p.exponent.map String.toList).map exponentValue).getD 0

/-- The exact number that the pieces write, without the sign. -/
def magnitude (p : NumberParts) : ℚ :=
  (digitsValue p.integer.toList + digitsValue p.fractionDigits / 10 ^ p.fractionDigits.length) *
    10 ^ p.power

end NumberParts

/-- A literal whose text is taken for a number. -/
def Node.HasValue (n : Node) (x : Binary64) : Prop :=
  ∃ text, n.literalText? = some text ∧ Literal.ofText text = .ok ⟨text, x⟩

/-- The digits on both sides of the point are read in one row. -/
theorem NumberParts.magnitude_eq (p : NumberParts) :
    p.magnitude = digitsValue (p.integer.toList ++ p.fractionDigits) *
      10 ^ (p.power - p.fractionDigits.length) := by
  rw [magnitude, digitsValue_append, zpow_sub₀ (by norm_num), zpow_natCast]
  push_cast
  field_simp

theorem NumberParts.isDigits (p : NumberParts) :
    Text.IsDigits (p.integer.toList ++ p.fractionDigits) := by
  refine List.forall_mem_append.2 ⟨p.isNumeral.integer_isDigits, ?_⟩
  rw [fractionDigits]
  cases hfraction : p.fraction.map String.toList with
  | none => exact fun c hc => absurd hc List.not_mem_nil
  | some ds => exact p.isNumeral.fraction_isDigits ds hfraction

/-- The sign is split off, and nothing else. -/
theorem splitSign_append {sign : String} (hsign : sign = "" ∨ sign = "+" ∨ sign = "-") {cs : Text}
    (hcs : cs.Begins isDigit) : splitSign (sign.toList ++ cs) = (decide (sign = "-"), cs) := by
  obtain ⟨c, ds, rfl, hdigit⟩ := hcs
  rcases hsign with rfl | rfl | rfl
  · exact splitSign_of_isDigit hdigit ds
  · rfl
  · rfl

/-- The text of a literal is taken for a number piece by piece. -/
theorem numeral?_literal (p : NumberParts) (span : Option Span) :
    ∃ text, (p.node span).literalText? = some text ∧
      numeral? text = some (.finite (p.sign = "-") (p.integer.toList ++ p.fractionDigits)
        (p.power - p.fractionDigits.length)) := by
  have hcharacters := mem_literalCharacters_of_mem_numeralText p.isNumeral
  have hsign : ∀ c ∈ p.sign.toList, c ∈ literalCharacters := by
    rcases p.isSign with hs | hs | hs <;> rw [hs]
    · exact fun c hc => absurd hc List.not_mem_nil
    · exact List.forall_mem_singleton.2 (by decide)
    · exact List.forall_mem_singleton.2 (by decide)
  refine ⟨_, congrArg some (numberText_eq p.sign), ?_⟩
  -- the text is left as it is until the sign is split off and the rest is cut at its marks
  rw [numeral?_eq_unsigned (List.forall_mem_append.2 ⟨hsign, hcharacters⟩),
    splitSign_append p.isSign (numeralText_begins p.isNumeral),
    unsignedNumeral?_eq_decimal hcharacters, decimalNumeral?_numeralText p.isNumeral]
  rfl

/-! ## Values -/

/-- A literal has exactly one value. -/
theorem NumberParts.hasValue_iff (p : NumberParts) (span : Option Span) (x : Binary64) :
    (p.node span).HasValue x ↔ x = .ofMagnitude (p.sign = "-")
      (decimalBits (p.integer.toList ++ p.fractionDigits) (p.power - p.fractionDigits.length)) := by
  obtain ⟨text, htext, hnumeral⟩ := numeral?_literal p span
  have hliteral : Literal.ofText text = .ok ⟨text, .ofMagnitude (p.sign = "-")
      (decimalBits (p.integer.toList ++ p.fractionDigits)
        (p.power - p.fractionDigits.length))⟩ := by
    rw [Literal.ofText, readNumber?, hnumeral]
    rfl
  constructor
  · rintro ⟨text', htext', hvalue⟩
    obtain rfl : text = text' := Option.some.inj (htext.symm.trans htext')
    rw [hliteral] at hvalue
    exact (Literal.mk.inj (Except.ok.inj hvalue)).2.symm
  · rintro rfl
    exact ⟨text, htext, hliteral⟩

theorem NumberParts.hasValue_iff_roundsTo (p : NumberParts) (span : Option Span) (x : Binary64) :
    (p.node span).HasValue x ↔ RoundsTo (p.sign = "-") p.magnitude x := by
  obtain ⟨m, hbits, hnear⟩ := exists_isNearest_decimalBits p.isDigits
    (p.power - p.fractionDigits.length)
  rw [← p.magnitude_eq] at hnear
  -- what is found is rounded to, and nothing else is
  have hrounded := hnear.roundsTo (p.sign = "-")
  rw [p.hasValue_iff, hbits]
  constructor
  · rintro rfl
    exact hrounded
  · intro hx
    exact hx.unique hrounded

/-- The value of a literal is the exact number that its pieces write, rounded to the nearest number
of the format, with the sign bit set if the sign is a minus. It depends on nothing else. -/
theorem literal_value_rounded (p : NumberParts) (span : Option Span) :
    (∃ x, (p.node span).HasValue x) ∧
      (∀ x, (p.node span).HasValue x ↔ RoundsTo (p.sign = "-") p.magnitude x) ∧
      ∀ (q : NumberParts) (span' : Option Span), q.magnitude = p.magnitude →
        (q.sign = "-" ↔ p.sign = "-") →
        ∀ x, (q.node span').HasValue x ↔ (p.node span).HasValue x := by
  refine ⟨⟨_, (p.hasValue_iff span _).2 rfl⟩, p.hasValue_iff_roundsTo span, ?_⟩
  intro q span' hmagnitude hsign x
  rw [q.hasValue_iff_roundsTo, p.hasValue_iff_roundsTo, hmagnitude, decide_eq_decide.2 hsign]

/-- The literal `15`. -/
def plainFifteen : NumberParts where
  sign := ""
  integer := "15"
  fraction := none
  exponent := none
  isSign := .inl rfl
  isNumeral := ⟨by decide, by decide, fun _ h => absurd h (Option.not_mem_none _),
    fun _ h => absurd h (Option.not_mem_none _)⟩

/-- The literal `+1.50e1`. -/
def scientificFifteen : NumberParts where
  sign := "+"
  integer := "1"
  fraction := some "50"
  exponent := some "1"
  isSign := .inr (.inl rfl)
  isNumeral := ⟨by decide, by decide, by rintro _ ⟨⟩; decide,
    by rintro _ ⟨⟩; exact .unsigned (by decide) (by decide)⟩

theorem magnitude_scientificFifteen : scientificFifteen.magnitude = plainFifteen.magnitude := by
  have hplain : digitsValue "15".toList = 15 ∧ digitsValue [] = 0 := by decide
  have hscientific : digitsValue "1".toList = 1 ∧ digitsValue "50".toList = 50 := by decide
  have hlength : "50".toList.length = 2 := by decide
  have hpower : exponentValue "1".toList = 1 := by decide
  norm_num [NumberParts.magnitude, NumberParts.power, NumberParts.fractionDigits,
    scientificFifteen, plainFifteen, hplain, hscientific, hlength, hpower]

theorem literal_value_rounded_fifteen :
    scientificFifteen.magnitude = plainFifteen.magnitude ∧
      (scientificFifteen.sign = "-" ↔ plainFifteen.sign = "-") ∧
      (plainFifteen.node none).HasValue ⟨0x402e000000000000⟩ ∧
      (scientificFifteen.node none).HasValue ⟨0x402e000000000000⟩ := by
  have hmagnitude := magnitude_scientificFifteen
  have hsign : scientificFifteen.sign = "-" ↔ plainFifteen.sign = "-" := by decide
  have hvalue : (plainFifteen.node none).HasValue ⟨0x402e000000000000⟩ :=
    (plainFifteen.hasValue_iff none _).2 (by decide +kernel)
  obtain ⟨-, -, hsame⟩ := literal_value_rounded plainFifteen none
  exact ⟨hmagnitude, hsign, hvalue, (hsame scientificFifteen none hmagnitude hsign _).2 hvalue⟩

end Spruce
