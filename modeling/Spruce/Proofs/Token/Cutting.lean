import Spruce.Proofs.Token.Spelling
import Spruce.Number.Literal

set_option autoImplicit false

/-!
# Texts that are cut as they are meant

A piece of text is cut off as one lexeme if it has the form of its class and what comes after it
cannot be taken for a part of it. Which characters those are depends on the class: a word ends
before anything but a letter or a digit (`lexeme_name`), a numeral also before anything but a
decimal point (`lexeme_numeral`), a symbol before anything that makes a longer symbol of it
(`lexeme_symbol`), line breaks before anything that is neither one nor a blank (`lexeme_newline`).
Blanks leave no token, however many there are (`lexFrom_blank`).
-/

namespace Spruce

/-! ## Characters -/

theorem isDigit_iff {c : Char} : isDigit c = true ↔ 48 ≤ c.toNat ∧ c.toNat ≤ 57 := by
  simp only [isDigit, Bool.and_eq_true, decide_eq_true_eq]
  exact Iff.rfl

theorem isLetter_iff {c : Char} :
    isLetter c = true ↔ 65 ≤ c.toNat ∧ c.toNat ≤ 90 ∨ 97 ≤ c.toNat ∧ c.toNat ≤ 122 := by
  simp only [isLetter, Bool.or_eq_true, Bool.and_eq_true, decide_eq_true_eq]
  exact Iff.rfl

theorem isLetter_of_isDigit {c : Char} (h : isDigit c = true) : isLetter c = false := by
  rw [← Bool.not_eq_true, isLetter_iff]
  have hdigit := isDigit_iff.1 h
  omega

/-- A letter or a digit. -/
def isAlphanumeric (c : Char) : Bool := isLetter c || isDigit c

/-- A character that is no part of the word, numeral or symbol before it. -/
def isDelimiter (c : Char) : Bool := !(isAlphanumeric c || c = '.' || c = '=' || c = '>')

/-- A character that does not go on with blanks or line breaks. -/
def isSolid (c : Char) : Bool := !(isBlank c || c = '\n' || c = '\r')

theorem not_isBlank_of_isSolid {c : Char} (h : isSolid c = true) : (!isBlank c) = true := by
  simp only [isSolid, Bool.not_eq_true', Bool.or_eq_false_iff] at h
  rw [h.1.1]
  rfl

/-- Blanks and tabs only. -/
def Text.IsBlanks (indent : Text) : Prop := ∀ c ∈ indent, isBlank c = true

theorem Text.IsBlanks.nil : Text.IsBlanks [] := fun _ hc => absurd hc List.not_mem_nil

/-! ## First characters -/

/-- A text that is empty or starts with a character of some kind. -/
def Text.Opens (f : Char → Bool) (rest : Text) : Prop := ∀ c ∈ rest.head?, f c = true

theorem Text.opens_cons {f : Char → Bool} {c : Char} {cs : Text} :
    Text.Opens f (c :: cs) ↔ f c = true := by
  simp [Opens]

theorem Text.Opens.mono {f g : Char → Bool} {rest : Text} (h : Text.Opens f rest)
    (hfg : ∀ c, f c = true → g c = true) : Text.Opens g rest :=
  fun c hc => hfg c (h c hc)

theorem takeWhile_eq_nil_of_opens {f : Char → Bool} {rest : Text}
    (h : Text.Opens (fun c => !f c) rest) : rest.takeWhile f = [] := by
  cases rest with
  | nil => rfl
  | cons c cs =>
      have hc : f c = false := by simpa using h c rfl
      simp [hc]

/-- Characters of a kind are all that is taken before a character that is not of it. -/
theorem takeWhile_append_of_opens {f : Char → Bool} {cs rest : Text} (hcs : ∀ c ∈ cs, f c = true)
    (hrest : Text.Opens (fun c => !f c) rest) : (cs ++ rest).takeWhile f = cs := by
  rw [List.takeWhile_append_of_pos hcs, takeWhile_eq_nil_of_opens hrest, List.append_nil]

theorem dropWhile_append_of_opens {f : Char → Bool} {cs rest : Text} (hcs : ∀ c ∈ cs, f c = true)
    (hrest : Text.Opens (fun c => !f c) rest) : (cs ++ rest).dropWhile f = rest := by
  rw [List.dropWhile_append_of_pos hcs]
  cases rest with
  | nil => rfl
  | cons c rest =>
      have hc : f c = false := by simpa using hrest c rfl
      simp [hc]

/-- A text that does not go on with the word, numeral or symbol before it. -/
abbrev Text.Delimited (rest : Text) : Prop := Text.Opens isDelimiter rest

/-! ## Words -/

/-- A letter, and then letters and digits. -/
def Text.isName : Text → Bool
  | [] => false
  | c :: cs => isLetter c && cs.all isAlphanumeric

theorem word_eq_nil {c : Char} (h : isLetter c = false) (cs : Text) : word (c :: cs) = [] := by
  rw [word, h]
  rfl

theorem lexeme_name {w rest : Text} (hw : w.isName = true)
    (hrest : Text.Opens (fun c => !isAlphanumeric c) rest) :
    lexeme (w ++ rest) = some ⟨some (wordKind w), w⟩ := by
  cases w with
  | nil => exact absurd hw Bool.false_ne_true
  | cons c cs =>
      obtain ⟨hletter, hlater⟩ := Bool.and_eq_true_iff.1 hw
      have hword : word (c :: (cs ++ rest)) = c :: cs := by
        rw [word, if_pos hletter]
        exact congrArg (c :: ·) (takeWhile_append_of_opens (List.all_eq_true.1 hlater) hrest)
      rw [List.cons_append, lexeme, hword]

/-- Keywords are names. -/
theorem isName_spelling {k : Terminal} (hk : k ∈ Terminal.keywords) :
    Text.isName k.spelling = true := by
  revert k
  decide

/-- A keyword is cut off as a word is. -/
theorem lexeme_keyword {k : Terminal} (hk : k ∈ Terminal.keywords) {rest : Text}
    (hrest : Text.Opens (fun c => !isAlphanumeric c) rest) :
    lexeme (k.spelling ++ rest) = some ⟨some k, k.spelling⟩ := by
  have hkind : wordKind k.spelling = k := (wordKind_eq_keyword_iff hk).2 rfl
  have hword := lexeme_name (isName_spelling hk) hrest
  rwa [hkind] at hword

/-! ## Numerals -/

/-- Digits only. -/
def Text.IsDigits (cs : Text) : Prop := ∀ c ∈ cs, isDigit c = true

instance : DecidablePred Text.IsDigits := fun cs =>
  decidable_of_iff (cs.all isDigit = true) List.all_eq_true

/-- Digits, at least one, with an optional sign before them. -/
inductive Text.IsExponent : Text → Prop where
  | unsigned {ds : Text} (hne : ds ≠ []) (hds : IsDigits ds) : IsExponent ds
  | signed {c : Char} {ds : Text} (hc : isSign c = true) (hne : ds ≠ []) (hds : IsDigits ds) :
      IsExponent (c :: ds)

theorem Text.IsExponent.ne_nil {es : Text} (h : es.IsExponent) : es ≠ [] := by
  cases h with
  | unsigned hne _ => exact hne
  | signed _ _ _ => exact List.cons_ne_nil _ _

theorem not_isDigit_of_isSign {c : Char} (h : isSign c = true) : isDigit c = false := by
  rcases (by simpa [isSign] using h : c = '+' ∨ c = '-') with rfl | rfl <;> decide

theorem Text.Delimited.not_digit {rest : Text} (h : rest.Delimited) :
    Text.Opens (fun c => !isDigit c) rest := by
  refine h.mono fun c hc => ?_
  simp_all [isDelimiter, isAlphanumeric]

theorem Text.Delimited.not_alphanumeric {rest : Text} (h : rest.Delimited) :
    Text.Opens (fun c => !isAlphanumeric c) rest := by
  refine h.mono fun c hc => ?_
  simp_all [isDelimiter]

theorem digits_append {ds rest : Text} (hds : ds.IsDigits)
    (hrest : Text.Opens (fun c => !isDigit c) rest) : digits (ds ++ rest) = ds :=
  takeWhile_append_of_opens hds hrest

/-- The first digit of an exponent is not taken for a sign. -/
theorem signedDigits_of_isDigit {d : Char} (hd : isDigit d = true) (cs : Text) :
    signedDigits (d :: cs) = digits (d :: cs) := by
  rw [signedDigits, if_neg]
  intro hsign
  rw [not_isDigit_of_isSign hsign] at hd
  exact Bool.false_ne_true hd

theorem signedDigits_append {e rest : Text} (he : e.IsExponent) (hrest : rest.Delimited) :
    signedDigits (e ++ rest) = e := by
  cases he with
  | unsigned hne hds =>
      obtain ⟨d, ds, rfl⟩ := List.exists_cons_of_ne_nil hne
      rw [List.cons_append, signedDigits_of_isDigit (hds d List.mem_cons_self)]
      exact digits_append hds hrest.not_digit
  | @signed c ds hc hne hds =>
      obtain ⟨d, ds, rfl⟩ := List.exists_cons_of_ne_nil hne
      rw [List.cons_append, signedDigits, if_pos hc, digits_append hds hrest.not_digit]

/-- An exponent is taken whole. -/
theorem exponentPart_append {e : Option Text} {rest : Text} (he : ∀ t ∈ e, t.IsExponent)
    (hrest : rest.Delimited) : exponentPart (markedPiece 'e' e ++ rest) = markedPiece 'e' e := by
  cases e with
  | none =>
      cases rest with
      | nil => rfl
      | cons c rest =>
          have hc := Text.opens_cons.1 hrest
          show exponentPart (c :: rest) = []
          rw [exponentPart, if_neg]
          rintro (rfl | rfl) <;> exact absurd hc (by decide)
  | some e =>
      have hexponent := signedDigits_append (he e rfl) hrest
      obtain ⟨c, cs, rfl⟩ := List.exists_cons_of_ne_nil (he e rfl).ne_nil
      -- the mark alone would not be taken, but there are digits after it
      show exponentPart ('e' :: (c :: cs ++ rest)) = 'e' :: c :: cs
      rw [exponentPart, if_pos (.inl rfl), hexponent]

/-- A fraction is taken whole. -/
theorem fractionPart_append {f : Option Text} {rest : Text} (hf : ∀ t ∈ f, t.IsDigits)
    (hdigit : Text.Opens (fun c => !isDigit c) rest)
    (hpoint : Text.Opens (fun c => c != '.') rest) :
    fractionPart (markedPiece '.' f ++ rest) = markedPiece '.' f := by
  cases f with
  | none =>
      cases rest with
      | nil => rfl
      | cons c rest =>
          have hc : c ≠ '.' := by simpa using Text.opens_cons.1 hpoint
          show fractionPart (c :: rest) = []
          rw [fractionPart.eq_2]
          rintro cs h
          exact hc (List.cons.inj h).1
  | some f => exact congrArg ('.' :: ·) (digits_append (hf f rfl) hdigit)

/-- An unsigned numeral with the given pieces. -/
def numeralText (integer : Text) (fraction exponent : Option Text) : Text :=
  integer ++ (markedPiece '.' fraction ++ markedPiece 'e' exponent)

/-- Pieces that make a numeral. -/
structure IsNumeral (integer : Text) (fraction exponent : Option Text) : Prop where
  integer_ne_nil : integer ≠ []
  integer_isDigits : integer.IsDigits
  fraction_isDigits : ∀ t ∈ fraction, t.IsDigits
  exponent_isExponent : ∀ t ∈ exponent, t.IsExponent

section

variable {integer : Text} {fraction exponent : Option Text} {rest : Text}

theorem opens_markedPiece {f : Char → Bool} {mark : Char} (hmark : f mark = true)
    (hrest : Text.Opens f rest) (piece : Option Text) :
    Text.Opens f (markedPiece mark piece ++ rest) := by
  cases piece with
  | none => exact hrest
  | some t => exact Text.opens_cons.2 hmark

/-- The digits of the integer part end before the rest of a numeral. -/
theorem opens_afterInteger (fraction exponent : Option Text) (hrest : rest.Delimited) :
    Text.Opens (fun c => !isDigit c)
      (markedPiece '.' fraction ++ (markedPiece 'e' exponent ++ rest)) :=
  opens_markedPiece (by decide) (opens_markedPiece (by decide) hrest.not_digit exponent) fraction

theorem numeral_append (h : IsNumeral integer fraction exponent) (hrest : rest.Delimited) :
    numeral (numeralText integer fraction exponent ++ rest) =
      numeralText integer fraction exponent := by
  -- each piece ends where the next begins, or else at the delimiter
  have hpoint : Text.Opens (fun c => c != '.') rest := by
    refine Text.Opens.mono hrest fun c hc => ?_
    simp_all [isDelimiter]
  have hdigit' : Text.Opens (fun c => !isDigit c) (markedPiece 'e' exponent ++ rest) :=
    opens_markedPiece (by decide) hrest.not_digit exponent
  have hpoint' : Text.Opens (fun c => c != '.') (markedPiece 'e' exponent ++ rest) :=
    opens_markedPiece (by decide) hpoint exponent
  have hfraction := fractionPart_append h.fraction_isDigits hdigit' hpoint'
  have hdigits := digits_append h.integer_isDigits (opens_afterInteger fraction exponent hrest)
  obtain ⟨c, cs, rfl⟩ := List.exists_cons_of_ne_nil h.integer_ne_nil
  rw [numeralText, List.append_assoc, List.append_assoc, numeral, hdigits]
  dsimp only
  rw [List.drop_left, hfraction, List.drop_left,
    exponentPart_append h.exponent_isExponent hrest, List.append_assoc]

theorem numeralPieces_numeralText (h : IsNumeral integer fraction exponent) :
    numeralPieces (numeralText integer fraction exponent) =
      ⟨String.ofList integer, fraction.map String.ofList, exponent.map String.ofList⟩ := by
  have hend : Text.Delimited [] := fun c hc => absurd hc (Option.not_mem_none c)
  have hafter : Text.Opens (fun c => !isDigit c)
      (markedPiece '.' fraction ++ markedPiece 'e' exponent) := by
    simpa using opens_afterInteger fraction exponent hend
  have hexponent : exponentPiece (markedPiece 'e' exponent) = exponent.map String.ofList := by
    cases exponent <;> rfl
  rw [numeralPieces, numeralText, digits_append h.integer_isDigits hafter,
    dropWhile_append_of_opens h.integer_isDigits hafter]
  cases fraction with
  | none =>
      cases exponent with
      | none => rfl
      | some e => rfl
  | some f =>
      have hdigits : f.IsDigits := h.fraction_isDigits f rfl
      have hopens : Text.Opens (fun c => !isDigit c) (markedPiece 'e' exponent) := by
        simpa using opens_markedPiece (by decide) hend.not_digit exponent
      show NumeralPieces.mk _ (some (String.ofList (digits (f ++ _))))
        (exponentPiece ((f ++ _).dropWhile isDigit)) = _
      rw [digits_append hdigits hopens, dropWhile_append_of_opens hdigits hopens, hexponent]
      rfl

end

/-! ## Lexemes -/

theorem numeral_eq_nil {c : Char} (h : isDigit c = false) (cs : Text) :
    numeral (c :: cs) = [] := by
  simp [numeral, digits, h]

theorem lexeme_numeral {integer rest : Text} {fraction exponent : Option Text}
    (h : IsNumeral integer fraction exponent) (hrest : rest.Delimited) :
    lexeme (numeralText integer fraction exponent ++ rest) =
      some ⟨some .number, numeralText integer fraction exponent⟩ := by
  obtain ⟨c, cs, hcs⟩ : ∃ c cs, numeralText integer fraction exponent = c :: cs :=
    List.exists_cons_of_ne_nil (List.append_ne_nil_of_left_ne_nil h.integer_ne_nil _)
  have hword : word (c :: (cs ++ rest)) = [] := by
    obtain ⟨d, ds, rfl⟩ := List.exists_cons_of_ne_nil h.integer_ne_nil
    obtain ⟨rfl, -⟩ := List.cons.inj hcs
    exact word_eq_nil (isLetter_of_isDigit (h.integer_isDigits d List.mem_cons_self)) _
  have hnumeral := numeral_append h hrest
  rw [hcs, List.cons_append] at hnumeral ⊢
  rw [lexeme, hword, hnumeral]

/-- A character that starts neither a word nor a numeral, a line break or blanks. -/
def isMark (c : Char) : Bool := !isAlphanumeric c && isSolid c

theorem lineRun_cons {c : Char} (hnewline : c ≠ '\n') (hreturn : c ≠ '\r') (started : Bool)
    (cs : Text) :
    lineRun started (c :: cs) = if started && isBlank c then c :: lineRun true cs else [] :=
  lineRun.eq_3 started c cs hnewline fun _ hc _ => hreturn hc

/-- Only a symbol can stand where a mark does. -/
theorem lexeme_mark {c : Char} (hc : isMark c = true) (cs : Text) :
    lexeme (c :: cs) = (symbol (c :: cs)).map fun t => ⟨some t, t.spelling⟩ := by
  simp only [isMark, isAlphanumeric, isSolid, Bool.and_eq_true, Bool.not_eq_true',
    Bool.or_eq_false_iff, decide_eq_false_iff_not] at hc
  obtain ⟨⟨hletter, hdigit⟩, ⟨hblank, hnewline⟩, hreturn⟩ := hc
  -- the kinds of lexemes are tried in turn
  have hline : lineRun false (c :: cs) = [] := lineRun_cons hnewline hreturn false cs
  have hblanks : blanks (c :: cs) = [] := by simp [blanks, hblank]
  rw [lexeme, word_eq_nil hletter, numeral_eq_nil hdigit, hline, hblanks]

/-- Symbols start with marks. -/
theorem isMark_of_symbol {t : Terminal} (ht : t ∈ Terminal.symbols) {c : Char} {cs : Text}
    (h : t.spelling = c :: cs) : isMark c = true := by
  have hhead : ∀ u ∈ Terminal.symbols, u.spelling.head?.all isMark = true := by decide
  have hall := hhead t ht
  rw [h] at hall
  exact hall

/-- A character that makes no longer symbol of the symbol before it. -/
def isApart (c : Char) : Bool := c != '=' && c != '>'

/-- A symbol is cut off before anything that makes no longer symbol of it. -/
theorem lexeme_symbol {t : Terminal} {rest : Text} (ht : t ∈ Terminal.symbols)
    (hrest : rest.Opens isApart) :
    lexeme (t.spelling ++ rest) = some ⟨some t, t.spelling⟩ := by
  have hsymbol : symbol (t.spelling ++ rest) = some t := by
    cases rest with
    | nil =>
        revert t
        decide
    | cons c rest =>
        have hc : c ≠ '=' ∧ c ≠ '>' := by simpa [isApart] using Text.opens_cons.1 hrest
        -- whether a longer symbol stands there depends on the next character only
        cases t <;> first
          | exact absurd ht (by decide)
          | simp [symbol, Terminal.symbols, Terminal.spelling, hc.1.symm, hc.2.symm]
  obtain ⟨c, cs, hcs⟩ := List.exists_cons_of_ne_nil (Terminal.spelling_ne_nil_of_mem_symbols ht)
  rw [hcs, List.cons_append] at hsymbol ⊢
  rw [lexeme_mark (isMark_of_symbol ht hcs), hsymbol]
  exact congrArg (fun text => some (Lexeme.mk (some t) text)) hcs

theorem lexeme_blank {c : Char} (hc : isBlank c = true) (cs : Text) :
    lexeme (c :: cs) = some ⟨none, blanks (c :: cs)⟩ := by
  rcases (by simpa [isBlank] using hc : c = ' ' ∨ c = '\t') with rfl | rfl <;> rfl

/-- Blanks are taken with the line break before them. -/
theorem lineRun_started_append {indent : Text} (h : indent.IsBlanks) (rest : Text) :
    lineRun true (indent ++ rest) = indent ++ lineRun true rest := by
  induction indent with
  | nil => rfl
  | cons c indent ih =>
      have hblank : isBlank c = true := h c List.mem_cons_self
      have hlater := ih fun d hd => h d (List.mem_cons_of_mem c hd)
      rcases (by simpa [isBlank] using hblank : c = ' ' ∨ c = '\t') with rfl | rfl
      · exact congrArg (' ' :: ·) hlater
      · exact congrArg ('\t' :: ·) hlater

/-- Line breaks end before anything but blanks and line breaks. -/
theorem lineRun_eq_nil_of_opens {rest : Text} (hrest : rest.Opens isSolid) :
    lineRun true rest = [] := by
  cases rest with
  | nil => rfl
  | cons c rest =>
      have hc := Text.opens_cons.1 hrest
      simp only [isSolid, Bool.not_eq_true', Bool.or_eq_false_iff,
        decide_eq_false_iff_not] at hc
      obtain ⟨⟨hblank, hnewline⟩, hreturn⟩ := hc
      rw [lineRun_cons hnewline hreturn, hblank]
      rfl

/-- Indentation belongs to the newline before it. -/
theorem lexeme_newline {indent rest : Text} (hindent : indent.IsBlanks)
    (hrest : rest.Opens isSolid) :
    lexeme ('\n' :: indent ++ rest) = some ⟨some .newline, '\n' :: indent⟩ := by
  have htaken : lineRun true (indent ++ rest) = indent := by
    rw [lineRun_started_append hindent, lineRun_eq_nil_of_opens hrest, List.append_nil]
  have hrun : lineRun false ('\n' :: (indent ++ rest)) = '\n' :: indent :=
    congrArg ('\n' :: ·) htaken
  rw [List.cons_append, lexeme, hrun]
  rfl

/-! ## Tokens before the rest of a text -/

/-- The tokens of a text with some tokens before them. -/
def Lexed.prepend (ts : List Token) (lexed : Lexed) : Lexed :=
  { lexed with tokens := ts ++ lexed.tokens }

theorem Lexed.prepend_append (ts us : List Token) (lexed : Lexed) :
    lexed.prepend (ts ++ us) = (lexed.prepend us).prepend ts := by
  simp [prepend, List.append_assoc]

/-- A token that starts at a place. -/
def Token.at (kind : Terminal) (text : Text) (p : Position) : Token :=
  ⟨kind, text, p, (p.advance text).offset⟩

/-- A lexeme with a kind is cut off as a token. -/
theorem lexFrom_token {kind : Terminal} {text rest : Text}
    (h : lexeme (text ++ rest) = some ⟨some kind, text⟩) (p : Position) :
    lexFrom p (text ++ rest) =
      (lexFrom (p.advance text) rest).prepend [Token.at kind text p] := by
  rw [lexFrom_of_some h]
  simp [Lexed.prepend, Token.at]

/-- A blank is dropped, whether or not there are blanks behind it. -/
theorem lexFrom_blank {c : Char} (hc : isBlank c = true) (cs : Text) (p : Position) :
    lexFrom p (c :: cs) = lexFrom (p.advance [c]) cs := by
  have hblanks {d : Char} (hd : isBlank d = true) (ds : Text) :
      blanks (d :: ds) = d :: blanks ds := by simp [blanks, hd]
  rw [lexFrom_of_some (lexeme_blank hc cs), hblanks hc]
  cases cs with
  | nil => rfl
  | cons d ds =>
      cases hd : isBlank d with
      | false =>
          have hnone : blanks (d :: ds) = [] := by simp [blanks, hd]
          rw [hnone]
          rfl
      -- the blanks behind it would be dropped as well
      | true =>
          rw [lexFrom_of_some (lexeme_blank hd ds), hblanks hd]
          rfl

end Spruce
