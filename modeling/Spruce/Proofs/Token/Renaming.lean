import Mathlib.Data.List.Forall2
import Spruce.Proofs.Token.Layout

set_option autoImplicit false

/-!
# Other words in the place of an identifier

An identifier in a text can be replaced by a keyword, and nothing else changes in how the text is
cut: a lexeme that ends before a word ends there whatever the letter is that the word begins with
(`lexeme_of_other_letter`), as long as it is no exponent mark, and behind a word there is no letter
or digit to go on with. So the tokens on either side keep their kinds and texts, and the same signs
touch the numbers after them (`lex_replace_identifier`).
-/

namespace Spruce

/-! ## Letters in lexemes -/

/-- The only letters in a number are exponent marks. -/
theorem eq_mark_of_isNumber {w : Text} (h : w.IsNumber) {c : Char} (hc : c ∈ w)
    (hletter : isLetter c = true) : c = 'e' ∨ c = 'E' := by
  have hdigit : ∀ ds : Text, ds.IsDigits → c ∉ ds := by
    intro ds hds hmem
    have hnot := isLetter_of_isDigit (hds c hmem)
    rw [hletter] at hnot
    exact Bool.noConfusion hnot
  obtain ⟨integer, fraction, exponent, -, hinteger, hfraction, hexponent, rfl⟩ := h
  rcases List.mem_append.1 hc with hc | hc
  · exact absurd hc (hdigit integer hinteger)
  rcases List.mem_append.1 hc with hc | hc
  · rcases hfraction with rfl | ⟨ds, hds, rfl⟩
    · exact absurd hc List.not_mem_nil
    · rcases List.mem_cons.1 hc with rfl | hc
      · exact absurd hletter (by decide)
      · exact absurd hc (hdigit ds hds)
  · rcases hexponent with rfl | ⟨mark, es, hmark, hes, rfl⟩
    · exact absurd hc List.not_mem_nil
    · rcases List.mem_cons.1 hc with rfl | hc
      · exact hmark
      · cases hes with
        | unsigned _ hds => exact absurd hc (hdigit es hds)
        | @signed d ds hsign _ hds =>
            rcases List.mem_cons.1 hc with rfl | hc
            · rcases (by simpa [isSign] using hsign : c = '+' ∨ c = '-') with rfl | rfl <;>
                exact absurd hletter (by decide)
            · exact absurd hc (hdigit ds hds)

/-- A lexeme with a letter in it that is no exponent mark is a word. -/
theorem Lexeme.IsProper.isName_of_letter {l : Lexeme} (h : l.IsProper) {c : Char}
    (hc : c ∈ l.text) (hletter : isLetter c = true) (hmark : ¬(c = 'e' ∨ c = 'E')) :
    Text.isName l.text = true := by
  have hsolid : isSolid c = true := by
    apply isSolid_of_isAlphanumeric
    rw [isAlphanumeric, hletter, Bool.true_or]
  cases h with
  | word h => exact h
  | number h => exact absurd (eq_mark_of_isNumber h hc hletter) hmark
  | newline h =>
      rw [h.not_isSolid c hc] at hsolid
      exact Bool.noConfusion hsolid
  | blanks _ h =>
      rw [not_isSolid_of_isBlank (h c hc)] at hsolid
      exact Bool.noConfusion hsolid
  | @symbol t ht =>
      have hnone : ∀ t ∈ Terminal.symbols, t.spelling.any isLetter = false := by decide
      exact absurd hletter (List.any_eq_false.1 (hnone t ht) c hc)

/-! ## Lexemes before a word -/

/-- The beginning of a name with another letter behind it is a name. -/
theorem isName_concat {cs more : Text} {c d : Char} (hne : cs ≠ [])
    (h : Text.isName (cs ++ c :: more) = true) (hd : isLetter d = true) :
    Text.isName (cs ++ [d]) = true := by
  obtain ⟨b, bs, rfl⟩ := List.exists_cons_of_ne_nil hne
  rw [List.cons_append] at h ⊢
  obtain ⟨hletter, hall⟩ := Bool.and_eq_true_iff.1 h
  rw [List.all_append, Bool.and_eq_true] at hall
  refine Bool.and_eq_true_iff.2 ⟨hletter, ?_⟩
  rw [List.all_append, hall.1, List.all_cons, isAlphanumeric, hd]
  rfl

/-- A lexeme that ends before a word, or before text that a word comes after, ends there also if the
word begins with another letter. -/
theorem lexeme_of_other_letter {l : Lexeme} {cs rest : Text} {c d : Char}
    (h : lexeme (l.text ++ (cs ++ c :: rest)) = some l) (hc : isLetter c = true)
    (hd : isLetter d = true) (hmark : ¬(d = 'e' ∨ d = 'E')) (rest' : Text) :
    lexeme (l.text ++ (cs ++ d :: rest')) = some l := by
  obtain ⟨hproper, -, hlongest⟩ := lexeme_eq_some_iff.1 h
  refine lexeme_eq_some_iff.2 ⟨hproper, List.prefix_append _ _, fun m hm hfront => ?_⟩
  rw [← List.append_assoc] at h hfront hlongest
  have hbefore : l.text ++ cs <+: l.text ++ cs ++ c :: rest := List.prefix_append _ _
  rcases List.prefix_or_prefix_of_prefix hfront (List.prefix_append (l.text ++ cs) (d :: rest'))
    with hshort | ⟨more, hmore⟩
  · exact hlongest m hm (hshort.trans hbefore)
  cases more with
  | nil =>
      rw [List.append_nil] at hmore
      exact hlongest m hm (hmore ▸ hbefore)
  | cons b more =>
      -- a longer lexeme has the letter in it, so that it was a longer word before
      rw [← hmore] at hfront
      obtain ⟨tail, htail⟩ := (List.prefix_append_right_inj _).1 hfront
      obtain ⟨rfl, -⟩ := List.cons.inj htail
      have hname := hm.isName_of_letter (by simp [← hmore]) hd hmark
      rw [← hmore] at hname
      have hne : l.text ++ cs ≠ [] := List.append_ne_nil_of_left_ne_nil hproper.text_ne_nil _
      have hlonger := hlongest ⟨some (wordKind (l.text ++ cs ++ [c])), l.text ++ cs ++ [c]⟩
        (.word (isName_concat hne hname hc)) ⟨rest, by simp⟩
      simp only [List.length_append, List.length_singleton] at hlonger
      omega

/-- No letter or digit follows a word. -/
theorem opens_behind_word {w rest : Text} (hw : w.isName = true) {kind : Option Terminal}
    (h : lexeme (w ++ rest) = some ⟨kind, w⟩) : rest.Opens fun c => !isAlphanumeric c := by
  obtain ⟨-, -, hlongest⟩ := lexeme_eq_some_iff.1 h
  intro c hc
  obtain ⟨cs, rfl⟩ := List.head?_eq_some_iff.1 hc
  rw [Bool.not_eq_true', ← Bool.not_eq_true]
  intro halphanumeric
  -- it would make a longer word
  have hname : Text.isName (w ++ [c]) = true := by
    cases w with
    | nil => exact absurd hw Bool.false_ne_true
    | cons b bs =>
        obtain ⟨hletter, hall⟩ := Bool.and_eq_true_iff.1 hw
        rw [List.cons_append]
        refine Bool.and_eq_true_iff.2 ⟨hletter, ?_⟩
        rw [List.all_append, hall, List.all_cons, halphanumeric]
        rfl
  have hlonger := hlongest ⟨some (wordKind (w ++ [c])), w ++ [c]⟩ (.word hname) ⟨cs, by simp⟩
  simp only [List.length_append, List.length_singleton] at hlonger
  omega

/-! ## Keywords -/

/-- A keyword starts with a letter that is no exponent mark. -/
theorem exists_spelling_eq_cons {k : Terminal} (hk : k ∈ Terminal.keywords) :
    ∃ d ds, k.spelling = d :: ds ∧ isLetter d = true ∧ ¬(d = 'e' ∨ d = 'E') := by
  rcases (by simpa [Terminal.keywords] using hk :
    k = .typeKeyword ∨ k = .caseKeyword ∨ k = .mutKeyword) with rfl | rfl | rfl
  · exact ⟨_, _, rfl, by decide, by decide⟩
  · exact ⟨_, _, rfl, by decide, by decide⟩
  · exact ⟨_, _, rfl, by decide, by decide⟩

/-- Lexemes stay cut with a keyword in the place of an identifier. -/
theorem AreCut.replace_identifier {ls ms : List Lexeme} {w : Text}
    (h : AreCut (ls ++ ⟨some .identifier, w⟩ :: ms)) {k : Terminal} (hk : k ∈ Terminal.keywords) :
    AreCut (ls ++ ⟨some k, k.spelling⟩ :: ms) := by
  obtain ⟨d, ds, hcons, hd, hmark⟩ := exists_spelling_eq_cons hk
  have hname : Text.isName w = true :=
    (h.isProper _ (List.mem_append_right ls List.mem_cons_self)).isName rfl List.mem_cons_self
  induction ls with
  | nil =>
      cases h with
      | cons hword hms =>
          exact .cons (lexeme_keyword hk (opens_behind_word hname hword)) hms
  | cons l ls ih =>
      rw [List.cons_append] at h ⊢
      cases h with
      | cons hl hlater =>
          refine .cons ?_ (ih hlater)
          have hne : w ≠ [] := by
            rintro rfl
            exact Bool.false_ne_true hname
          obtain ⟨c, cs, rfl⟩ := List.exists_cons_of_ne_nil hne
          rw [textOf_append, textOf_cons, List.cons_append] at hl
          rw [textOf_append, textOf_cons, hcons, List.cons_append]
          exact lexeme_of_other_letter hl (isLetter_of_isName hname) hd hmark _

/-- A keyword in the place of an identifier leaves the same signs touching numbers. -/
theorem touches_replace_identifier {ls ms : List Lexeme} {l m : Lexeme}
    (hl : l.kind = some .identifier) {k : Terminal} (hk : k ∈ Terminal.keywords)
    (hm : m.kind = some k) :
    (bareLexemes (ls ++ m :: ms)).map BareToken.touches =
      (bareLexemes (ls ++ l :: ms)).map BareToken.touches := by
  have hword : ∀ (w : Lexeme) (j : Terminal), w.kind = some j →
      j ∈ Terminal.identifier :: Terminal.keywords →
        (bareLexemes (ls ++ w :: ms)).map BareToken.touches =
          (bareLexemes ls).map BareToken.touches ++
            false :: (bareLexemes ms).map BareToken.touches := by
    intro w j hw hj
    have hkinds : ∀ j ∈ Terminal.identifier :: Terminal.keywords,
        j ≠ .number ∧ j.isPlusOrMinus = false := by decide
    obtain ⟨hnumber, hsign⟩ := hkinds j hj
    -- a word is neither a sign nor a number
    have hbefore : ∀ k ∈ ls.getLast?, k.touches (w :: ms) = false := by
      intro k _
      simp [Lexeme.touches, hw, hnumber]
    have hafter : w.touches ms = false := by
      cases ms <;> simp [Lexeme.touches, hw, hsign]
    rw [bareLexemes_append hbefore, bareLexemes_cons_of_some hw, hafter, List.map_append,
      List.map_cons]
  rw [hword m k hm (List.mem_cons_of_mem _ hk), hword l .identifier hl List.mem_cons_self]

/-! ## Texts -/

/-- A token of the same kind with the same text, at whatever place. -/
def Token.IsLike (t u : Token) : Prop := u.kind = t.kind ∧ u.text = t.text

/-- The tokens of lexemes are the same wherever they stand, but for their places. -/
theorem place_isLike (p q : Position) (ls : List Lexeme) :
    List.Forall₂ Token.IsLike (place p ls) (place q ls) := by
  induction ls generalizing p q with
  | nil => exact .nil
  | cons l ls ih =>
      cases hkind : l.kind with
      | none =>
          rw [place_cons_of_none hkind, place_cons_of_none hkind]
          exact ih _ _
      | some kind =>
          rw [place_cons_of_some hkind, place_cons_of_some hkind]
          exact .cons ⟨rfl, rfl⟩ (ih _ _)

/-- A keyword in the place of an identifier changes that token alone, but for the places of those
after it, and leaves the same signs touching the numbers after them. -/
theorem lex_replace_identifier {text : Text} (hrest : (lex text).rest = [])
    {before after : List Token} {t : Token} (htokens : (lex text).tokens = before ++ t :: after)
    (ht : t.kind = .identifier) {k : Terminal} (hk : k ∈ Terminal.keywords) :
    (lex (text.take t.start.offset ++ (k.spelling ++ text.drop t.stop))).rest = [] ∧
      ∃ t' after', (lex (text.take t.start.offset ++ (k.spelling ++ text.drop t.stop))).tokens =
          before ++ t' :: after' ∧
        t'.kind = k ∧ t'.text = k.spelling ∧ List.Forall₂ Token.IsLike after after' ∧
        (bare (before ++ t' :: after')).map BareToken.touches =
          (bare (before ++ t :: after)).map BareToken.touches := by
  obtain ⟨ls, hls, rfl, hplace⟩ := lex_rest_eq_nil_iff.1 hrest
  rw [hplace] at htokens
  obtain ⟨ls₁, ⟨kind, w⟩, ls₂, rfl, hbefore, hkind, heq, hafter⟩ := exists_of_place_eq htokens
  rw [ht] at hkind
  obtain rfl : kind = some .identifier := hkind
  have hcut := hls.replace_identifier hk
  obtain ⟨hrest', htokens'⟩ := lex_textOf hcut
  rw [replace_textOf heq (some k) k.spelling]
  have hplace' : place .origin (ls₁ ++ ⟨some k, k.spelling⟩ :: ls₂) =
      before ++ Token.at k k.spelling (Position.origin.advance (textOf ls₁)) ::
        place ((Position.origin.advance (textOf ls₁)).advance k.spelling) ls₂ := by
    rw [place_append, hbefore, place_cons_of_some rfl]
  refine ⟨hrest', _, _, htokens'.trans hplace', rfl, rfl, hafter ▸ place_isLike _ _ ls₂, ?_⟩
  rw [← hplace', ← htokens, bare_place hcut.text_ne_nil, bare_place hls.text_ne_nil]
  exact touches_replace_identifier rfl hk rfl

end Spruce
