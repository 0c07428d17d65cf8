import Spruce.Proofs.Token.Cutting

set_option autoImplicit false

/-!
# The longest lexeme

A lexeme is a word, a number, a run of line breaks, blanks or a symbol (`Lexeme.IsProper`). What is
cut off at the front of a text is the longest of all the lexemes that the text begins with
(`lexeme_eq_some_iff`). The first character tells which class of lexemes can stand there, so that
classes never compete; within a class the longest is found by taking characters while they fit.

As the longest lexeme of a text depends on nothing but the beginnings of the text, it stays the
same when the text is shortened behind it (`lexeme_of_append`). No lexeme goes on from characters of
other kinds to blanks or line breaks or the other way round (`Lexeme.IsProper.isSolid_iff`), so that
such a lexeme also stays the same when blanks are put anywhere behind it
(`lexeme_append_of_isSolid`).
-/

namespace Spruce

/-! ## Classes of lexemes -/

/-- Nothing, or a decimal point with digits after it. -/
def Text.IsFractionPart (cs : Text) : Prop := cs = [] ∨ ∃ ds, Text.IsDigits ds ∧ cs = '.' :: ds

/-- Nothing, or an exponent mark with signed digits after it. -/
def Text.IsExponentPart (cs : Text) : Prop :=
  cs = [] ∨ ∃ mark es, (mark = 'e' ∨ mark = 'E') ∧ Text.IsExponent es ∧ cs = mark :: es

/-- Digits, at least one, with an optional fraction and an optional exponent. -/
def Text.IsNumber (cs : Text) : Prop :=
  ∃ integer fraction exponent : Text, integer ≠ [] ∧ integer.IsDigits ∧ fraction.IsFractionPart ∧
    exponent.IsExponentPart ∧ cs = integer ++ (fraction ++ exponent)

/-- A line feed, with or without a carriage return before it, and blanks after it. -/
def Text.IsLineBreak (cs : Text) : Prop :=
  ∃ indent, Text.IsBlanks indent ∧ (cs = '\n' :: indent ∨ cs = '\r' :: '\n' :: indent)

/-- One or more line breaks, each with the blanks after it. -/
def Text.IsLineRun (cs : Text) : Prop :=
  ∃ breaks : List Text, breaks ≠ [] ∧ (∀ b ∈ breaks, Text.IsLineBreak b) ∧ cs = breaks.flatten

/-- The lexemes that there are, by class. -/
inductive Lexeme.IsProper : Lexeme → Prop where
  | word {w : Text} (h : w.isName = true) : IsProper ⟨some (wordKind w), w⟩
  | number {w : Text} (h : w.IsNumber) : IsProper ⟨some .number, w⟩
  | newline {w : Text} (h : w.IsLineRun) : IsProper ⟨some .newline, w⟩
  | blanks {w : Text} (hne : w ≠ []) (h : w.IsBlanks) : IsProper ⟨none, w⟩
  | symbol {t : Terminal} (h : t ∈ Terminal.symbols) : IsProper ⟨some t, t.spelling⟩

/-! ## Beginnings of a text -/

/-- A beginning all of one kind is a beginning of what is taken of that kind. -/
theorem prefix_takeWhile {p : Char → Bool} {ds cs : Text} (hds : ∀ c ∈ ds, p c = true)
    (h : ds <+: cs) : ds <+: cs.takeWhile p := by
  obtain ⟨rest, rfl⟩ := h
  rw [List.takeWhile_append_of_pos hds]
  exact List.prefix_append ds _

/-- A beginning of one kind that is followed by a character of another is all that is taken. -/
theorem takeWhile_eq_of_prefix {p : Char → Bool} {ds more cs : Text} {c : Char}
    (hds : ∀ d ∈ ds, p d = true) (hc : p c = false) (h : ds ++ c :: more <+: cs) :
    cs.takeWhile p = ds := by
  obtain ⟨rest, rfl⟩ := h
  rw [List.append_assoc]
  apply takeWhile_append_of_opens hds
  exact Text.opens_cons.2 (by rw [hc]; rfl)

theorem opens_dropWhile (p : Char → Bool) (cs : Text) :
    Text.Opens (fun c => !p c) (cs.dropWhile p) := by
  intro c hc
  have hnot := List.head?_dropWhile_not p cs
  rw [Option.mem_def.1 hc] at hnot
  simpa using hnot

/-! ## Words -/

theorem isName_word {c : Char} (hc : isLetter c = true) (cs : Text) :
    Text.isName (word (c :: cs)) = true := by
  rw [word, if_pos hc, Text.isName, hc]
  exact List.all_takeWhile

theorem word_isPrefix (cs : Text) : word cs <+: cs := by
  cases cs with
  | nil => exact List.nil_prefix
  | cons c cs =>
      rw [word]
      split
      · exact List.prefix_cons_inj c |>.2 (List.takeWhile_prefix _)
      · exact List.nil_prefix

/-- No longer name stands at the front of a text than the word that is cut off. -/
theorem length_le_word {w cs : Text} (hw : w.isName = true) (h : w <+: cs) :
    w.length ≤ (word cs).length := by
  obtain ⟨rest, rfl⟩ := h
  cases w with
  | nil => exact Nat.zero_le _
  | cons c w =>
      obtain ⟨hletter, hlater⟩ := Bool.and_eq_true_iff.1 hw
      have hfront : w <+: (w ++ rest).takeWhile isAlphanumeric :=
        prefix_takeWhile (List.all_eq_true.1 hlater) (List.prefix_append w rest)
      rw [List.cons_append, word, if_pos hletter]
      exact Nat.succ_le_succ hfront.length_le

/-! ## Numerals -/

theorem isDigits_digits (cs : Text) : Text.IsDigits (digits cs) :=
  List.all_eq_true.1 List.all_takeWhile

theorem not_isDigit_of_mark {c : Char} (h : c = 'e' ∨ c = 'E') : isDigit c = false := by
  rcases h with rfl | rfl <;> decide

theorem signedDigits_isPrefix (cs : Text) : signedDigits cs <+: cs := by
  cases cs with
  | nil => exact List.nil_prefix
  | cons c cs =>
      rw [signedDigits]
      split
      · split
        · exact List.nil_prefix
        · next hdigits => exact List.prefix_cons_inj c |>.2 (List.takeWhile_prefix _)
      · exact List.takeWhile_prefix _

theorem isExponent_signedDigits {cs : Text} (h : signedDigits cs ≠ []) :
    Text.IsExponent (signedDigits cs) := by
  cases cs with
  | nil => exact absurd rfl h
  | cons c cs =>
      rw [signedDigits] at h ⊢
      split
      · next hsign =>
          rw [if_pos hsign] at h
          split at h
          · exact absurd rfl h
          · next hne => exact .signed hsign hne (isDigits_digits cs)
      · next hsign =>
          rw [if_neg hsign] at h
          exact .unsigned h (isDigits_digits (c :: cs))

/-- No more signed digits stand at the front of a text than are taken. -/
theorem length_le_signedDigits {es cs : Text} (he : es.IsExponent) (h : es <+: cs) :
    es.length ≤ (signedDigits cs).length := by
  cases he with
  | unsigned hne hds =>
      obtain ⟨rest, rfl⟩ := h
      obtain ⟨d, ds, rfl⟩ := List.exists_cons_of_ne_nil hne
      rw [List.cons_append, signedDigits_of_isDigit (hds d List.mem_cons_self), ← List.cons_append]
      exact (prefix_takeWhile hds (List.prefix_append _ _)).length_le
  | @signed c ds hc hne hds =>
      obtain ⟨rest, rfl⟩ := h
      have hle := (prefix_takeWhile hds (List.prefix_append ds rest)).length_le
      have hpos := List.length_pos_iff.2 hne
      rw [List.cons_append, signedDigits, if_pos hc]
      split
      · next hnil =>
          rw [digits] at hnil
          rw [hnil] at hle
          simp only [List.length_nil] at hle
          omega
      · exact Nat.succ_le_succ hle

theorem exponentPart_isPrefix (cs : Text) : exponentPart cs <+: cs := by
  cases cs with
  | nil => exact List.nil_prefix
  | cons c cs =>
      rw [exponentPart]
      split
      · split
        · exact List.nil_prefix
        · exact List.prefix_cons_inj c |>.2 (signedDigits_isPrefix cs)
      · exact List.nil_prefix

theorem isExponentPart_exponentPart (cs : Text) : Text.IsExponentPart (exponentPart cs) := by
  cases cs with
  | nil => exact .inl rfl
  | cons c cs =>
      rw [exponentPart]
      split
      · next hmark =>
          split
          · exact .inl rfl
          · next hne => exact .inr ⟨c, _, hmark, isExponent_signedDigits hne, rfl⟩
      · exact .inl rfl

theorem length_le_exponentPart {e cs : Text} (he : e.IsExponentPart) (h : e <+: cs) :
    e.length ≤ (exponentPart cs).length := by
  rcases he with rfl | ⟨mark, es, hmark, hes, rfl⟩
  · exact Nat.zero_le _
  · obtain ⟨rest, rfl⟩ := h
    have hle := length_le_signedDigits hes (List.prefix_append es rest)
    have hpos := List.length_pos_iff.2 hes.ne_nil
    rw [List.cons_append, exponentPart, if_pos hmark]
    split
    · next hnil =>
        rw [hnil] at hle
        simp only [List.length_nil] at hle
        omega
    · exact Nat.succ_le_succ hle

theorem fractionPart_isPrefix (cs : Text) : fractionPart cs <+: cs := by
  rw [fractionPart.eq_def]
  split
  · exact List.prefix_cons_inj '.' |>.2 (List.takeWhile_prefix _)
  · exact List.nil_prefix

theorem isFractionPart_fractionPart (cs : Text) : Text.IsFractionPart (fractionPart cs) := by
  rw [fractionPart.eq_def]
  split
  · exact .inr ⟨_, isDigits_digits _, rfl⟩
  · exact .inl rfl

/-- A numeral is its digits with the longest fraction after them and the longest exponent after
that. -/
theorem numeral_append_digits {ds rest : Text} (hne : ds ≠ []) (hds : ds.IsDigits)
    (hrest : Text.Opens (fun c => !isDigit c) rest) :
    numeral (ds ++ rest) =
      ds ++ (fractionPart rest ++ exponentPart (rest.drop (fractionPart rest).length)) := by
  obtain ⟨c, cs, rfl⟩ := List.exists_cons_of_ne_nil hne
  rw [numeral, digits_append hds hrest]
  dsimp only
  rw [List.drop_left, List.append_assoc]

theorem numeral_eq {cs : Text} (h : digits cs ≠ []) :
    numeral cs = digits cs ++ (fractionPart (cs.dropWhile isDigit) ++
      exponentPart ((cs.dropWhile isDigit).drop (fractionPart (cs.dropWhile isDigit)).length)) := by
  have hsplit : digits cs ++ cs.dropWhile isDigit = cs := List.takeWhile_append_dropWhile
  have heq := numeral_append_digits h (isDigits_digits cs) (opens_dropWhile isDigit cs)
  rwa [hsplit] at heq

theorem digits_ne_nil_of_numeral {cs : Text} (h : numeral cs ≠ []) : digits cs ≠ [] := by
  intro hnil
  apply h
  rw [numeral, hnil]

/-- A beginning of what comes after a beginning makes a longer beginning. -/
theorem append_prefix_of_drop {u v cs : Text} (hu : u <+: cs) (hv : v <+: cs.drop u.length) :
    u ++ v <+: cs := by
  obtain ⟨rest, rfl⟩ := hu
  rw [List.drop_left] at hv
  exact (List.prefix_append_right_inj u).2 hv

theorem numeral_isPrefix (cs : Text) : numeral cs <+: cs := by
  by_cases h : digits cs = []
  · rw [numeral, h]
    exact List.nil_prefix
  · have hafter : fractionPart (cs.dropWhile isDigit) ++
        exponentPart ((cs.dropWhile isDigit).drop (fractionPart (cs.dropWhile isDigit)).length) <+:
          cs.dropWhile isDigit :=
      append_prefix_of_drop (fractionPart_isPrefix _) (exponentPart_isPrefix _)
    have hsplit : digits cs ++ cs.dropWhile isDigit = cs := List.takeWhile_append_dropWhile
    have hfront := (List.prefix_append_right_inj (digits cs)).2 hafter
    rwa [hsplit, ← numeral_eq h] at hfront

theorem isNumber_numeral {cs : Text} (h : numeral cs ≠ []) : Text.IsNumber (numeral cs) := by
  have hdigits := digits_ne_nil_of_numeral h
  rw [numeral_eq hdigits]
  exact ⟨_, _, _, hdigits, isDigits_digits cs, isFractionPart_fractionPart _,
    isExponentPart_exponentPart _, rfl⟩

/-- What follows the digits of a number, if anything, starts with no digit. -/
theorem not_isDigit_of_parts {fraction exponent more : Text} {c : Char}
    (hf : fraction.IsFractionPart) (he : exponent.IsExponentPart)
    (h : fraction ++ exponent = c :: more) : isDigit c = false := by
  rcases hf with rfl | ⟨ds, -, rfl⟩
  · rcases he with rfl | ⟨mark, es, hmark, -, rfl⟩
    · simp at h
    · obtain ⟨rfl, -⟩ := List.cons.inj h
      exact not_isDigit_of_mark hmark
  · obtain ⟨rfl, -⟩ := List.cons.inj h
    decide

/-- No longer fraction and exponent stand at the front of a text than are taken. -/
theorem length_le_parts {fraction exponent cs : Text} (hf : fraction.IsFractionPart)
    (he : exponent.IsExponentPart) (h : fraction ++ exponent <+: cs) :
    (fraction ++ exponent).length ≤
      (fractionPart cs ++ exponentPart (cs.drop (fractionPart cs).length)).length := by
  rcases hf with rfl | ⟨ds, hds, rfl⟩
  · rw [List.nil_append] at h ⊢
    rcases he with rfl | ⟨mark, es, hmark, hes, rfl⟩
    · exact Nat.zero_le _
    -- without a fraction the exponent comes first
    · have hnone : fractionPart cs = [] := by
        obtain ⟨rest, rfl⟩ := h
        rcases hmark with rfl | rfl <;> rfl
      rw [hnone, List.length_nil, List.drop_zero, List.nil_append]
      exact length_le_exponentPart (.inr ⟨mark, es, hmark, hes, rfl⟩) h
  · obtain ⟨rest, rfl⟩ := h
    have hpoint : fractionPart (('.' :: ds ++ exponent) ++ rest) =
        '.' :: digits ((ds ++ exponent) ++ rest) := rfl
    rw [hpoint]
    by_cases hexponent : exponent = []
    · subst hexponent
      have hle := (prefix_takeWhile hds (List.prefix_append ds rest)).length_le
      rw [← digits] at hle
      simp only [List.append_nil, List.length_append, List.length_cons]
      omega
    -- the digits of the fraction end where the exponent begins
    · obtain ⟨c, more, hcons⟩ := List.exists_cons_of_ne_nil hexponent
      have hc : isDigit c = false :=
        not_isDigit_of_parts (.inl rfl : Text.IsFractionPart []) he hcons
      have hdigits : digits ((ds ++ exponent) ++ rest) = ds := by
        refine takeWhile_eq_of_prefix hds hc (?_ : ds ++ c :: more <+: _)
        rw [← hcons]
        exact List.prefix_append _ rest
      have hdrop : (('.' :: ds ++ exponent) ++ rest).drop ('.' :: ds).length =
          exponent ++ rest := by
        rw [List.append_assoc, List.drop_left]
      have hle := length_le_exponentPart he (List.prefix_append exponent rest)
      rw [hdigits, hdrop]
      simp only [List.length_append]
      omega

/-- No longer number stands at the front of a text than the numeral that is cut off. -/
theorem length_le_numeral {w cs : Text} (hw : w.IsNumber) (h : w <+: cs) :
    w.length ≤ (numeral cs).length := by
  obtain ⟨integer, fraction, exponent, hne, hdigits, hf, he, rfl⟩ := hw
  have hinteger : integer <+: digits cs :=
    prefix_takeWhile hdigits ((List.prefix_append integer _).trans h)
  have hcs : digits cs ≠ [] := by
    intro hnil
    rw [hnil] at hinteger
    exact hne (List.prefix_nil.1 hinteger)
  rw [numeral_eq hcs]
  by_cases hparts : fraction ++ exponent = []
  · rw [hparts, List.append_nil, List.length_append]
    exact Nat.le_trans hinteger.length_le (Nat.le_add_right _ _)
  -- the integer part ends where the rest of the number begins
  · obtain ⟨c, more, hcons⟩ := List.exists_cons_of_ne_nil hparts
    have hc := not_isDigit_of_parts hf he hcons
    have heq : digits cs = integer := by
      refine takeWhile_eq_of_prefix hdigits hc (?_ : integer ++ c :: more <+: _)
      rwa [← hcons]
    have hsplit : digits cs ++ cs.dropWhile isDigit = cs := List.takeWhile_append_dropWhile
    have hrest : fraction ++ exponent <+: cs.dropWhile isDigit := by
      rw [← hsplit, heq] at h
      exact (List.prefix_append_right_inj integer).1 h
    have hle := length_le_parts hf he hrest
    rw [heq]
    simp only [List.length_append] at hle ⊢
    omega

/-! ## Line breaks -/

theorem lineRun_break_append {b : Text} (h : b.IsLineBreak) (started : Bool) (rest : Text) :
    lineRun started (b ++ rest) = b ++ lineRun true rest := by
  obtain ⟨indent, hindent, rfl | rfl⟩ := h
  · cases started <;> exact congrArg ('\n' :: ·) (lineRun_started_append hindent rest)
  · cases started <;>
      exact congrArg (fun cs => '\r' :: '\n' :: cs) (lineRun_started_append hindent rest)

theorem lineRun_breaks_append {breaks : List Text} (h : ∀ b ∈ breaks, b.IsLineBreak)
    (rest : Text) :
    lineRun true (breaks.flatten ++ rest) = breaks.flatten ++ lineRun true rest := by
  induction breaks with
  | nil => rfl
  | cons b breaks ih =>
      have hlater := ih fun d hd => h d (List.mem_cons_of_mem b hd)
      rw [List.flatten_cons, List.append_assoc, lineRun_break_append (h b List.mem_cons_self),
        hlater, List.append_assoc]

/-- Line breaks at the front of a text are all taken, with whatever of the kind comes next. -/
theorem lineRun_run_append {run : Text} (h : run.IsLineRun) (rest : Text) :
    lineRun false (run ++ rest) = run ++ lineRun true rest := by
  obtain ⟨breaks, hne, hbreaks, rfl⟩ := h
  obtain ⟨b, later, rfl⟩ := List.exists_cons_of_ne_nil hne
  have hlater := lineRun_breaks_append (fun d hd => hbreaks d (List.mem_cons_of_mem b hd)) rest
  rw [List.flatten_cons, List.append_assoc,
    lineRun_break_append (hbreaks b List.mem_cons_self), hlater, List.append_assoc]

theorem lineRun_isPrefix (started : Bool) (cs : Text) : lineRun started cs <+: cs := by
  induction started, cs using lineRun.induct with
  | case1 started cs ih =>
      rw [lineRun]
      exact (List.prefix_cons_inj '\n').2 ih
  | case2 started cs ih =>
      rw [lineRun]
      exact (List.prefix_cons_inj '\r').2 ((List.prefix_cons_inj '\n').2 ih)
  | case3 started c cs hnewline hreturn hblank ih =>
      rw [lineRun.eq_3 _ _ _ hnewline hreturn, if_pos hblank]
      exact (List.prefix_cons_inj c).2 ih
  | case4 started c cs hnewline hreturn hblank =>
      rw [lineRun.eq_3 _ _ _ hnewline hreturn, if_neg hblank]
      exact List.nil_prefix
  | case5 started => simp [lineRun]

/-- What is taken at a line break is line breaks with the blanks after each. -/
theorem exists_lineRun_eq (started : Bool) (cs : Text) :
    ∃ (indent : Text) (breaks : List Text), (started = false → indent = []) ∧ indent.IsBlanks ∧
      (∀ b ∈ breaks, b.IsLineBreak) ∧ lineRun started cs = indent ++ breaks.flatten := by
  induction started, cs using lineRun.induct with
  | case1 started cs ih =>
      obtain ⟨indent, breaks, -, hindent, hbreaks, heq⟩ := ih
      refine ⟨[], ('\n' :: indent) :: breaks, fun _ => rfl, .nil, ?_, ?_⟩
      · exact List.forall_mem_cons.2 ⟨⟨indent, hindent, .inl rfl⟩, hbreaks⟩
      · rw [lineRun, heq]
        rfl
  | case2 started cs ih =>
      obtain ⟨indent, breaks, -, hindent, hbreaks, heq⟩ := ih
      refine ⟨[], ('\r' :: '\n' :: indent) :: breaks, fun _ => rfl, .nil, ?_, ?_⟩
      · exact List.forall_mem_cons.2 ⟨⟨indent, hindent, .inr rfl⟩, hbreaks⟩
      · rw [lineRun, heq]
        rfl
  | case3 started c cs hnewline hreturn hblank ih =>
      obtain ⟨indent, breaks, -, hindent, hbreaks, heq⟩ := ih
      obtain ⟨rfl, hc⟩ := Bool.and_eq_true_iff.1 hblank
      refine ⟨c :: indent, breaks, by simp, List.forall_mem_cons.2 ⟨hc, hindent⟩, hbreaks, ?_⟩
      rw [lineRun.eq_3 _ _ _ hnewline hreturn, if_pos hblank, heq]
      rfl
  | case4 started c cs hnewline hreturn hblank =>
      refine ⟨[], [], fun _ => rfl, .nil, by simp, ?_⟩
      rw [lineRun.eq_3 _ _ _ hnewline hreturn, if_neg hblank]
      rfl
  | case5 started =>
      refine ⟨[], [], fun _ => rfl, .nil, by simp, ?_⟩
      rw [lineRun]
      rfl

theorem isLineRun_lineRun {cs : Text} (h : lineRun false cs ≠ []) :
    Text.IsLineRun (lineRun false cs) := by
  obtain ⟨indent, breaks, hindent, -, hbreaks, heq⟩ := exists_lineRun_eq false cs
  rw [hindent rfl, List.nil_append] at heq
  refine ⟨breaks, ?_, hbreaks, heq⟩
  rintro rfl
  exact h heq

/-! ## Symbols -/

/-- Longer symbols are tried before shorter ones. -/
theorem symbols_pairwise :
    Terminal.symbols.Pairwise fun t u => u.spelling.length ≤ t.spelling.length := by
  decide

theorem symbol_isPrefix {cs : Text} {t : Terminal} (h : symbol cs = some t) :
    t ∈ Terminal.symbols ∧ t.spelling <+: cs := by
  rw [symbol] at h
  have hfront := List.find?_some h
  exact ⟨List.mem_of_find?_eq_some h, List.isPrefixOf_iff_prefix.1 hfront⟩

/-- No longer symbol stands at the front of a text than the one that is found. -/
theorem length_le_symbol {cs : Text} {t : Terminal} (ht : t ∈ Terminal.symbols)
    (h : t.spelling <+: cs) :
    ∃ u, symbol cs = some u ∧ t.spelling.length ≤ u.spelling.length := by
  have hsome : (symbol cs).isSome := by
    rw [symbol, List.find?_isSome]
    exact ⟨t, ht, List.isPrefixOf_iff_prefix.2 h⟩
  obtain ⟨u, hu⟩ := Option.isSome_iff_exists.1 hsome
  refine ⟨u, hu, ?_⟩
  obtain ⟨-, before, after, hsplit, hbefore⟩ := List.find?_eq_some_iff_append.1 hu
  have hpairwise := symbols_pairwise
  rw [hsplit] at ht hpairwise
  rcases List.mem_append.1 ht with ht | ht
  · have hnot := hbefore t ht
    rw [List.isPrefixOf_iff_prefix.2 h] at hnot
    exact absurd hnot (by decide)
  · rcases List.mem_cons.1 ht with rfl | ht
    · exact Nat.le_refl _
    · exact (List.pairwise_cons.1 (List.pairwise_append.1 hpairwise).2.1).1 t ht

/-- Symbols are told apart by their spellings. -/
theorem spelling_injective {t u : Terminal} (ht : t ∈ Terminal.symbols)
    (hu : u ∈ Terminal.symbols) (h : t.spelling = u.spelling) : t = u := by
  have hall : ∀ t ∈ Terminal.symbols, ∀ u ∈ Terminal.symbols,
      t.spelling = u.spelling → t = u := by decide
  exact hall t ht u hu h

/-! ## The class of a lexeme by its first character -/

theorem lexeme_of_letter {c : Char} (h : isLetter c = true) (cs : Text) :
    lexeme (c :: cs) = some ⟨some (wordKind (word (c :: cs))), word (c :: cs)⟩ := by
  have hword : word (c :: cs) = c :: cs.takeWhile fun d => isLetter d || isDigit d := by
    rw [word, if_pos h]
  rw [lexeme, hword]

theorem lexeme_of_digit {c : Char} (h : isDigit c = true) (cs : Text) :
    lexeme (c :: cs) = some ⟨some .number, numeral (c :: cs)⟩ := by
  have hdigits : digits (c :: cs) ≠ [] := by simp [digits, h]
  obtain ⟨d, ds, hcons⟩ := List.exists_cons_of_ne_nil
    (List.append_ne_nil_of_left_ne_nil hdigits _ : digits (c :: cs) ++ _ ≠ [])
  rw [← numeral_eq hdigits] at hcons
  rw [lexeme, word_eq_nil (isLetter_of_isDigit h), hcons]

/-- A character that line breaks start with. -/
def isBreak (c : Char) : Bool := c = '\n' || c = '\r'

theorem not_isAlphanumeric_of_isBreak {c : Char} (h : isBreak c = true) :
    isLetter c = false ∧ isDigit c = false := by
  rcases (by simpa [isBreak] using h : c = '\n' ∨ c = '\r') with rfl | rfl <;> decide

theorem lexeme_of_break {c : Char} {cs : Text} (h : isBreak c = true)
    (hrun : lineRun false (c :: cs) ≠ []) :
    lexeme (c :: cs) = some ⟨some .newline, lineRun false (c :: cs)⟩ := by
  obtain ⟨hletter, hdigit⟩ := not_isAlphanumeric_of_isBreak h
  obtain ⟨d, ds, hcons⟩ := List.exists_cons_of_ne_nil hrun
  rw [lexeme, word_eq_nil hletter, numeral_eq_nil hdigit, hcons]

/-- A carriage return without a line feed after it starts no lexeme. -/
theorem lexeme_of_lone_break {c : Char} {cs : Text} (h : isBreak c = true)
    (hrun : lineRun false (c :: cs) = []) : lexeme (c :: cs) = none := by
  obtain ⟨hletter, hdigit⟩ := not_isAlphanumeric_of_isBreak h
  have hnone : blanks (c :: cs) = [] ∧ symbol (c :: cs) = none := by
    rcases (by simpa [isBreak] using h : c = '\n' ∨ c = '\r') with rfl | rfl <;>
      exact ⟨rfl, rfl⟩
  rw [lexeme, word_eq_nil hletter, numeral_eq_nil hdigit, hrun, hnone.1, hnone.2]
  rfl

/-- What kind of character a lexeme of each class starts with. -/
inductive CharClass (c : Char) : Prop where
  | letter (h : isLetter c = true)
  | digit (h : isDigit c = true)
  | lineBreak (h : isBreak c = true)
  | blank (h : isBlank c = true)
  | mark (h : isMark c = true)

theorem charClass (c : Char) : CharClass c := by
  cases hletter : isLetter c with
  | true => exact .letter hletter
  | false =>
      cases hdigit : isDigit c with
      | true => exact .digit hdigit
      | false =>
          cases hbreak : isBreak c with
          | true => exact .lineBreak hbreak
          | false =>
              cases hblank : isBlank c with
              | true => exact .blank hblank
              | false =>
                  apply CharClass.mark
                  simp_all [isMark, isAlphanumeric, isSolid, isBreak]

/-! ## The longest lexeme -/

/-- What is cut off is a lexeme that the text begins with. -/
theorem isProper_of_lexeme {cs : Text} {l : Lexeme} (h : lexeme cs = some l) :
    l.IsProper ∧ l.text <+: cs := by
  cases cs with
  | nil => simp [lexeme_nil] at h
  | cons c cs =>
      rcases charClass c with hc | hc | hc | hc | hc
      · rw [lexeme_of_letter hc] at h
        obtain rfl := Option.some.inj h
        exact ⟨.word (isName_word hc cs), word_isPrefix (c :: cs)⟩
      · rw [lexeme_of_digit hc] at h
        obtain rfl := Option.some.inj h
        have hne : numeral (c :: cs) ≠ [] := by
          rw [numeral_eq (by simp [digits, hc])]
          simp [digits, hc]
        exact ⟨.number (isNumber_numeral hne), numeral_isPrefix (c :: cs)⟩
      · by_cases hrun : lineRun false (c :: cs) = []
        · rw [lexeme_of_lone_break hc hrun] at h
          simp at h
        · rw [lexeme_of_break hc hrun] at h
          obtain rfl := Option.some.inj h
          exact ⟨.newline (isLineRun_lineRun hrun), lineRun_isPrefix false (c :: cs)⟩
      · rw [lexeme_blank hc] at h
        obtain rfl := Option.some.inj h
        have hne : blanks (c :: cs) ≠ [] := by simp [blanks, hc]
        exact ⟨.blanks hne (List.all_eq_true.1 List.all_takeWhile), List.takeWhile_prefix _⟩
      · rw [lexeme_mark hc] at h
        obtain ⟨t, ht, rfl⟩ := Option.map_eq_some_iff.1 h
        obtain ⟨hmem, hfront⟩ := symbol_isPrefix ht
        exact ⟨.symbol hmem, hfront⟩

/-- The first character of a lexeme. -/
theorem Lexeme.IsProper.exists_cons {l : Lexeme} (h : l.IsProper) :
    ∃ c cs, l.text = c :: cs := by
  apply List.exists_cons_of_ne_nil
  cases h with
  | word h =>
      rintro rfl
      exact absurd h (by decide)
  | number h =>
      obtain ⟨integer, _, _, hne, -, -, -, rfl⟩ := h
      exact List.append_ne_nil_of_left_ne_nil hne _
  | newline h =>
      obtain ⟨breaks, hne, hbreaks, rfl⟩ := h
      obtain ⟨b, later, rfl⟩ := List.exists_cons_of_ne_nil hne
      obtain ⟨indent, -, rfl | rfl⟩ := hbreaks b List.mem_cons_self <;> simp
  | blanks hne _ => exact hne
  | symbol h => exact Terminal.spelling_ne_nil_of_mem_symbols h

/-- A word is a name, whether or not it is a keyword. -/
theorem Lexeme.IsProper.isName {l : Lexeme} (h : l.IsProper) {kind : Terminal}
    (hkind : l.kind = some kind) (hword : kind ∈ Terminal.identifier :: Terminal.keywords) :
    Text.isName l.text = true := by
  cases h with
  | word h => exact h
  | number h | newline h =>
      obtain rfl := Option.some.inj hkind
      exact absurd hword (by decide)
  | blanks _ h => exact absurd hkind (Option.some_ne_none _).symm
  | symbol h =>
      obtain rfl := Option.some.inj hkind
      have hnot : ∀ t ∈ Terminal.symbols, t ∉ Terminal.identifier :: Terminal.keywords := by decide
      exact absurd hword (hnot _ h)

theorem isLetter_of_isName {c : Char} {cs : Text} (h : Text.isName (c :: cs) = true) :
    isLetter c = true :=
  (Bool.and_eq_true_iff.1 h).1

theorem isDigit_of_isNumber {c : Char} {cs : Text} (h : Text.IsNumber (c :: cs)) :
    isDigit c = true := by
  obtain ⟨integer, fraction, exponent, hne, hdigits, -, -, heq⟩ := h
  obtain ⟨d, ds, rfl⟩ := List.exists_cons_of_ne_nil hne
  obtain ⟨rfl, -⟩ := List.cons.inj heq
  exact hdigits c List.mem_cons_self

theorem isBreak_of_isLineRun {c : Char} {cs : Text} (h : Text.IsLineRun (c :: cs)) :
    isBreak c = true := by
  obtain ⟨breaks, hne, hbreaks, heq⟩ := h
  obtain ⟨b, later, rfl⟩ := List.exists_cons_of_ne_nil hne
  obtain ⟨indent, -, rfl | rfl⟩ := hbreaks b List.mem_cons_self <;>
    · obtain ⟨rfl, -⟩ := List.cons.inj heq
      decide

/-- No longer lexeme stands at the front of a text than the one that is cut off, and no other of its
length. -/
theorem Lexeme.IsProper.length_le {cs : Text} {l : Lexeme} (h : l.IsProper)
    (hfront : l.text <+: cs) :
    ∃ l', lexeme cs = some l' ∧ l.text.length ≤ l'.text.length ∧ (l.text = l'.text → l = l') := by
  obtain ⟨c, more, hcons⟩ := h.exists_cons
  obtain ⟨rest, rfl⟩ := hfront
  cases h with
  | @word w h =>
      dsimp only at hcons ⊢
      have hle := length_le_word h (List.prefix_append w rest)
      subst hcons
      refine ⟨_, lexeme_of_letter (isLetter_of_isName h) _, hle, fun htext => ?_⟩
      exact congrArg (fun w => Lexeme.mk (some (wordKind w)) w) htext
  | @number w h =>
      dsimp only at hcons ⊢
      have hle := length_le_numeral h (List.prefix_append w rest)
      subst hcons
      exact ⟨_, lexeme_of_digit (isDigit_of_isNumber h) _, hle, congrArg (Lexeme.mk _)⟩
  | @newline w h =>
      dsimp only at hcons ⊢
      have hrun := lineRun_run_append h rest
      subst hcons
      have hne : lineRun false (c :: (more ++ rest)) ≠ [] := by
        rw [← List.cons_append, hrun]
        exact List.cons_ne_nil _ _
      refine ⟨_, lexeme_of_break (isBreak_of_isLineRun h) hne, ?_, congrArg (Lexeme.mk _)⟩
      show (c :: more).length ≤ (lineRun false (c :: more ++ rest)).length
      rw [hrun]
      exact (List.prefix_append (c :: more) _).length_le
  | @blanks w hne h =>
      dsimp only at hcons ⊢
      have hle := (prefix_takeWhile h (List.prefix_append w rest)).length_le
      subst hcons
      exact ⟨_, lexeme_blank (h c List.mem_cons_self) _, hle, congrArg (Lexeme.mk _)⟩
  | @symbol t h =>
      dsimp only at hcons ⊢
      obtain ⟨u, hu, hle⟩ := length_le_symbol h (List.prefix_append t.spelling rest)
      have hmem : u ∈ Terminal.symbols := (symbol_isPrefix hu).1
      refine ⟨⟨some u, u.spelling⟩, ?_, hle, fun htext => ?_⟩
      · rw [hcons, List.cons_append] at hu ⊢
        rw [lexeme_mark (isMark_of_symbol h hcons), hu]
        rfl
      · rw [spelling_injective h hmem htext]

/-- The lexeme that is cut off is the longest that the text begins with. -/
theorem lexeme_eq_some_iff {cs : Text} {l : Lexeme} :
    lexeme cs = some l ↔ l.IsProper ∧ l.text <+: cs ∧
      ∀ l' : Lexeme, l'.IsProper → l'.text <+: cs → l'.text.length ≤ l.text.length := by
  constructor
  · intro h
    obtain ⟨hproper, hfront⟩ := isProper_of_lexeme h
    refine ⟨hproper, hfront, fun l' hproper' hfront' => ?_⟩
    obtain ⟨l'', hl'', hle, -⟩ := hproper'.length_le hfront'
    obtain rfl : l = l'' := Option.some.inj (h.symm.trans hl'')
    exact hle
  · rintro ⟨hproper, hfront, hlongest⟩
    obtain ⟨l', hl', hle, heq⟩ := hproper.length_le hfront
    obtain ⟨hproper', hfront'⟩ := isProper_of_lexeme hl'
    -- neither of the two is longer than the other
    have hlength : l.text.length = l'.text.length :=
      Nat.le_antisymm hle (hlongest l' hproper' hfront')
    have htext : l.text = l'.text :=
      (List.prefix_of_prefix_length_le hfront hfront' hle).eq_of_length hlength
    rw [heq htext]
    exact hl'

/-- A lexeme is what its own text is cut into. -/
theorem Lexeme.IsProper.lexeme_text {l : Lexeme} (h : l.IsProper) : lexeme l.text = some l :=
  lexeme_eq_some_iff.2 ⟨h, List.prefix_rfl, fun _ _ hfront => hfront.length_le⟩

/-- The text of a lexeme tells its kind. -/
theorem Lexeme.IsProper.eq_of_text_eq {l l' : Lexeme} (h : l.IsProper) (h' : l'.IsProper)
    (htext : l.text = l'.text) : l = l' := by
  have heq : lexeme l'.text = some l := htext ▸ h.lexeme_text
  exact Option.some.inj (heq.symm.trans h'.lexeme_text)

/-- A lexeme is cut off all the same if the text ends earlier, but not before the lexeme does. -/
theorem lexeme_of_append {cs rest : Text} {l : Lexeme} (h : lexeme (cs ++ rest) = some l)
    (hle : l.text.length ≤ cs.length) : lexeme cs = some l := by
  obtain ⟨hproper, hfront, hlongest⟩ := lexeme_eq_some_iff.1 h
  refine lexeme_eq_some_iff.2 ⟨hproper, ?_, fun l' hproper' hfront' => ?_⟩
  · exact List.prefix_of_prefix_length_le hfront (List.prefix_append cs rest) hle
  · exact hlongest l' hproper' (hfront'.trans (List.prefix_append cs rest))

/-! ## Solid lexemes -/

/-- A lexeme other than blanks and line breaks. -/
def Lexeme.IsSolid (l : Lexeme) : Prop := l.kind ≠ none ∧ l.kind ≠ some .newline

instance : DecidablePred Lexeme.IsSolid := fun l =>
  inferInstanceAs (Decidable (l.kind ≠ none ∧ l.kind ≠ some .newline))

theorem isSolid_of_isAlphanumeric {c : Char} (h : isAlphanumeric c = true) : isSolid c = true := by
  simp only [isSolid, isBlank, Bool.not_eq_true', Bool.or_eq_false_iff, decide_eq_false_iff_not]
  refine ⟨⟨⟨?_, ?_⟩, ?_⟩, ?_⟩ <;> rintro rfl <;> exact absurd h (by decide)

theorem isSolid_of_isDigits {ds : Text} (h : ds.IsDigits) : ∀ c ∈ ds, isSolid c = true := by
  intro c hc
  apply isSolid_of_isAlphanumeric
  rw [isAlphanumeric, h c hc, Bool.or_true]

theorem isSolid_of_isNumber {w : Text} (h : w.IsNumber) : ∀ c ∈ w, isSolid c = true := by
  obtain ⟨integer, fraction, exponent, -, hdigits, hf, he, rfl⟩ := h
  have hfraction : ∀ c ∈ fraction, isSolid c = true := by
    rcases hf with rfl | ⟨ds, hds, rfl⟩
    · simp
    · exact List.forall_mem_cons.2 ⟨by decide, isSolid_of_isDigits hds⟩
  have hexponent : ∀ c ∈ exponent, isSolid c = true := by
    rcases he with rfl | ⟨mark, es, hmark, hes, rfl⟩
    · simp
    · refine List.forall_mem_cons.2 ⟨by rcases hmark with rfl | rfl <;> decide, ?_⟩
      cases hes with
      | unsigned _ hds => exact isSolid_of_isDigits hds
      | @signed c _ hc _ hds =>
          refine List.forall_mem_cons.2 ⟨?_, isSolid_of_isDigits hds⟩
          rcases (by simpa [isSign] using hc : c = '+' ∨ c = '-') with rfl | rfl <;> decide
  intro c hc
  rcases List.mem_append.1 hc with hc | hc
  · exact isSolid_of_isDigits hdigits c hc
  · exact (List.mem_append.1 hc).elim (hfraction c) (hexponent c)

theorem wordKind_ne_newline (w : Text) : wordKind w ≠ .newline := by
  intro h
  exact absurd (h ▸ wordKind_mem w) (by decide)

theorem not_isSolid_of_isBlank {c : Char} (h : isBlank c = true) : isSolid c = false := by
  rw [isSolid, h]
  rfl

theorem Text.IsLineRun.not_isSolid {w : Text} (h : w.IsLineRun) : ∀ c ∈ w, isSolid c = false := by
  obtain ⟨breaks, -, hbreaks, rfl⟩ := h
  intro c hc
  obtain ⟨b, hb, hc⟩ := List.mem_flatten.1 hc
  obtain ⟨indent, hindent, rfl | rfl⟩ := hbreaks b hb
  · rcases List.mem_cons.1 hc with rfl | hc
    · decide
    · exact not_isSolid_of_isBlank (hindent c hc)
  · rcases List.mem_cons.1 hc with rfl | hc
    · decide
    · rcases List.mem_cons.1 hc with rfl | hc
      · decide
      · exact not_isSolid_of_isBlank (hindent c hc)

/-- No lexeme has both blanks or line breaks in it and other characters. -/
theorem Lexeme.IsProper.isSolid_iff {l : Lexeme} (h : l.IsProper) {c : Char} (hc : c ∈ l.text) :
    isSolid c = true ↔ l.IsSolid := by
  cases h with
  | @word w h =>
      obtain ⟨d, ds, rfl⟩ : ∃ d ds, w = d :: ds := IsProper.exists_cons (.word h)
      obtain ⟨hletter, hlater⟩ := Bool.and_eq_true_iff.1 h
      refine iff_of_true ?_ ⟨by simp, by simp [wordKind_ne_newline]⟩
      apply isSolid_of_isAlphanumeric
      rcases List.mem_cons.1 hc with rfl | hc
      · rw [isAlphanumeric, hletter, Bool.true_or]
      · exact List.all_eq_true.1 hlater c hc
  | number h => exact iff_of_true (isSolid_of_isNumber h c hc) ⟨by simp, by simp⟩
  | newline h => exact iff_of_false (by simp [h.not_isSolid c hc]) fun hsolid => hsolid.2 rfl
  | blanks _ h =>
      exact iff_of_false (by simp [not_isSolid_of_isBlank (h c hc)]) fun hsolid => hsolid.1 rfl
  | @symbol t h =>
      have hall : ∀ t ∈ Terminal.symbols, t ≠ .newline ∧ t.spelling.all isSolid = true := by
        decide
      refine iff_of_true (List.all_eq_true.1 (hall t h).2 c hc) ⟨by simp, ?_⟩
      simpa using (hall t h).1

/-- A solid lexeme ends before blanks and line breaks, wherever they begin. -/
theorem lexeme_append_of_isSolid {cs rest : Text} {l : Lexeme}
    (h : lexeme (l.text ++ cs) = some l) (hl : l.IsSolid)
    (hrest : Text.Opens (fun c => !isSolid c) rest) :
    lexeme (l.text ++ (cs ++ rest)) = some l := by
  obtain ⟨hproper, -, hlongest⟩ := lexeme_eq_some_iff.1 h
  refine lexeme_eq_some_iff.2 ⟨hproper, List.prefix_append _ _, fun l' hproper' hfront' => ?_⟩
  rw [← List.append_assoc] at hfront'
  rcases List.prefix_or_prefix_of_prefix hfront' (List.prefix_append (l.text ++ cs) rest) with
    hshort | ⟨more, hmore⟩
  · exact hlongest l' hproper' hshort
  cases more with
  | nil => exact hlongest l' hproper' ⟨[], by rw [List.append_nil, ← hmore, List.append_nil]⟩
  | cons c more =>
      -- a longer lexeme would start like `l` and hold the first character of `rest` as well
      exfalso
      rw [← hmore] at hfront'
      obtain ⟨tail, rfl⟩ := (List.prefix_append_right_inj _).1 hfront'
      have hc : isSolid c = false := by simpa using Text.opens_cons.1 hrest
      obtain ⟨d, ds, hd⟩ := hproper.exists_cons
      have hsolid : isSolid d = true := (hproper.isSolid_iff (by simp [hd])).2 hl
      have hl' : l'.IsSolid := (hproper'.isSolid_iff (by simp [← hmore, hd])).1 hsolid
      have hcontra := (hproper'.isSolid_iff (c := c) (by simp [← hmore])).2 hl'
      rw [hc] at hcontra
      exact Bool.false_ne_true hcontra

end Spruce
