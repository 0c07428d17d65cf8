import Spruce.Proofs.Token.Cuts

set_option autoImplicit false

/-!
# Tokens without their places

What layout leaves of a token is its kind, its text unless it is a newline, and whether it is a plus
or minus that touches a number directly after it (`BareToken`, `bare`). Which of its lexemes touch
does not depend on where a text stands (`bare_place`).

Two changes of layout keep the bare tokens: blanks put between two tokens or at either end
(`lex_respace`), and another newline token in the place of one (`lex_replace_newline`). What is cut
off before such a change stays the same, as blanks and line breaks go on with nothing but blanks and
line breaks (`AreCut.replace`).
-/

namespace Spruce

/-! ## Bare tokens -/

/-- A token without its place: its kind, its text unless it is a newline, and whether it is a plus
or minus that touches a number directly after it. -/
structure BareToken where
  kind : Terminal
  text : Text
  touches : Bool
  deriving DecidableEq, Repr

/-- A plus or a minus. -/
def Terminal.isPlusOrMinus (t : Terminal) : Bool := t = .plus || t = .minus

/-- The text of a token of some kind; that of a newline does not count. -/
def bareText (kind : Terminal) (text : Text) : Text := if kind = .newline then [] else text

/-- A plus or minus that ends where a number starts that comes next. -/
def Token.touches (t : Token) : (later : List Token) → Bool
  | u :: _ => t.kind.isPlusOrMinus && u.kind = .number && t.stop = u.start.offset
  | [] => false

/-- Tokens without their places. -/
def bare : List Token → List BareToken
  | [] => []
  | t :: ts => ⟨t.kind, bareText t.kind t.text, t.touches ts⟩ :: bare ts

/-- A plus or minus with a number next. -/
def Lexeme.touches (l : Lexeme) : (later : List Lexeme) → Bool
  | m :: _ => l.kind.any Terminal.isPlusOrMinus && m.kind = some .number
  | [] => false

/-- The tokens of lexemes without their places. -/
def bareLexemes : List Lexeme → List BareToken
  | [] => []
  | l :: ls =>
      (l.kind.toList.map fun kind => ⟨kind, bareText kind l.text, l.touches ls⟩) ++ bareLexemes ls

theorem bareLexemes_cons_of_none {l : Lexeme} (h : l.kind = none) (ls : List Lexeme) :
    bareLexemes (l :: ls) = bareLexemes ls := by
  simp [bareLexemes, h]

theorem bareLexemes_cons_of_some {l : Lexeme} {kind : Terminal} (h : l.kind = some kind)
    (ls : List Lexeme) :
    bareLexemes (l :: ls) = ⟨kind, bareText kind l.text, l.touches ls⟩ :: bareLexemes ls := by
  simp [bareLexemes, h]

/-- The last of some tokens does not touch a number that the next tokens start with. -/
def Apart (before after : List Token) : Prop := ∀ t ∈ before.getLast?, t.touches after = false

theorem bare_append {before after : List Token} (h : Apart before after) :
    bare (before ++ after) = bare before ++ bare after := by
  induction before with
  | nil => rfl
  | cons t before ih =>
      cases before with
      | nil =>
          have htouches : t.touches after = false := h t rfl
          rw [List.singleton_append, bare, htouches]
          rfl
      | cons u before =>
          have hlater : bare (u :: before ++ after) = bare (u :: before) ++ bare after :=
            ih fun v hv => h v (by simpa [List.getLast?_cons_cons] using hv)
          rw [List.cons_append, bare, hlater]
          rfl

/-- Lexemes next to each other touch, and no others do. -/
theorem touches_place {l : Lexeme} {kind : Terminal} (hkind : l.kind = some kind) {p : Position}
    {ls : List Lexeme} (h : ∀ m ∈ ls, m.text ≠ []) :
    (Token.at kind l.text p).touches (place (p.advance l.text) ls) = l.touches ls := by
  cases ls with
  | nil => rfl
  | cons m ms =>
      cases hm : m.kind with
      | some k =>
          rw [place_cons_of_some hm]
          simp [Token.touches, Lexeme.touches, Token.at, hkind, hm]
      -- blanks are in between
      | none =>
          rw [place_cons_of_none hm]
          have hfalse : l.touches (m :: ms) = false := by simp [Lexeme.touches, hm]
          rw [hfalse]
          cases hlater : place ((p.advance l.text).advance m.text) ms with
          | nil => rfl
          | cons u us =>
              have hpos := List.length_pos_iff.2 (h m List.mem_cons_self)
              have hle := le_start_of_mem_place (hlater ▸ List.mem_cons_self)
              rw [Position.advance_offset] at hle
              have hne : (Token.at kind l.text p).stop ≠ u.start.offset := by
                show (p.advance l.text).offset ≠ u.start.offset
                omega
              rw [Token.touches, decide_eq_false hne, Bool.and_false]

/-- Without their places the tokens of lexemes are the same wherever they stand. -/
theorem bare_place {ls : List Lexeme} (h : ∀ l ∈ ls, l.text ≠ []) (p : Position) :
    bare (place p ls) = bareLexemes ls := by
  induction ls generalizing p with
  | nil => rfl
  | cons l ls ih =>
      obtain ⟨-, hlater⟩ := List.forall_mem_cons.1 h
      cases hkind : l.kind with
      | none => rw [place_cons_of_none hkind, bareLexemes_cons_of_none hkind, ih hlater]
      | some kind =>
          rw [place_cons_of_some hkind, bareLexemes_cons_of_some hkind, bare,
            touches_place hkind hlater, ih hlater]
          rfl

theorem Lexeme.IsProper.text_ne_nil {l : Lexeme} (h : l.IsProper) : l.text ≠ [] := by
  obtain ⟨c, cs, hcons⟩ := h.exists_cons
  rw [hcons]
  exact List.cons_ne_nil c cs

theorem AreCut.text_ne_nil {ls : List Lexeme} (h : AreCut ls) : ∀ l ∈ ls, l.text ≠ [] :=
  fun l hl => (h.isProper l hl).text_ne_nil

theorem bareLexemes_append {ls ms : List Lexeme}
    (h : ∀ l ∈ ls.getLast?, l.touches ms = false) :
    bareLexemes (ls ++ ms) = bareLexemes ls ++ bareLexemes ms := by
  induction ls with
  | nil => rfl
  | cons l ls ih =>
      have htouches : l.touches (ls ++ ms) = l.touches ls := by
        cases ls with
        | nil => exact h l rfl
        | cons m ls => rfl
      have hlater : bareLexemes (ls ++ ms) = bareLexemes ls ++ bareLexemes ms := by
        apply ih
        intro m hm
        exact h m (by rw [List.getLast?_cons, Option.mem_def.1 hm]; rfl)
      rw [List.cons_append, bareLexemes, htouches, hlater, bareLexemes, List.append_assoc]

/-! ## Blanks and line breaks -/

theorem Lexeme.kind_eq_newline {l : Lexeme} (hl : ¬l.IsSolid) (hkind : l.kind ≠ none) :
    l.kind = some .newline :=
  Decidable.byContradiction fun hne => hl ⟨hkind, hne⟩

theorem Lexeme.IsProper.isBlanks {l : Lexeme} (h : l.IsProper) (hkind : l.kind = none) :
    Text.IsBlanks l.text := by
  cases h with
  | blanks _ h => exact h
  | _ => simp at hkind

theorem Lexeme.IsProper.isLineRun {l : Lexeme} (h : l.IsProper)
    (hkind : l.kind = some .newline) : Text.IsLineRun l.text := by
  cases h with
  | word h => exact absurd (Option.some.inj hkind) (wordKind_ne_newline _)
  | number h => simp at hkind
  | newline h => exact h
  | blanks _ h => simp at hkind
  | symbol h =>
      obtain rfl := Option.some.inj hkind
      exact absurd h (by decide)

theorem Text.IsBlanks.append {v w : Text} (hv : v.IsBlanks) (hw : w.IsBlanks) :
    Text.IsBlanks (v ++ w) :=
  fun c hc => (List.mem_append.1 hc).elim (hv c) (hw c)

theorem Text.IsLineBreak.append_blanks {b w : Text} (hb : b.IsLineBreak) (hw : w.IsBlanks) :
    Text.IsLineBreak (b ++ w) := by
  obtain ⟨indent, hindent, rfl | rfl⟩ := hb
  · exact ⟨indent ++ w, hindent.append hw, .inl rfl⟩
  · exact ⟨indent ++ w, hindent.append hw, .inr rfl⟩

theorem Text.IsLineRun.append_blanks {r w : Text} (hr : r.IsLineRun) (hw : w.IsBlanks) :
    Text.IsLineRun (r ++ w) := by
  obtain ⟨breaks, hne, hbreaks, rfl⟩ := hr
  -- the blanks belong to the last line break
  obtain ⟨before, last, rfl⟩ := (List.eq_nil_or_concat breaks).resolve_left hne
  rw [List.concat_eq_append] at hbreaks ⊢
  obtain ⟨hbefore, hlast⟩ := List.forall_mem_append.1 hbreaks
  refine ⟨before ++ [last ++ w], by simp, ?_, by simp⟩
  refine List.forall_mem_append.2 ⟨hbefore, List.forall_mem_singleton.2 ?_⟩
  exact (List.forall_mem_singleton.1 hlast).append_blanks hw

theorem Text.IsLineRun.append {r s : Text} (hr : r.IsLineRun) (hs : s.IsLineRun) :
    Text.IsLineRun (r ++ s) := by
  obtain ⟨breaks, hne, hbreaks, rfl⟩ := hr
  obtain ⟨later, -, hlater, rfl⟩ := hs
  refine ⟨breaks ++ later, List.append_ne_nil_of_left_ne_nil hne _, ?_, by simp⟩
  exact List.forall_mem_append.2 ⟨hbreaks, hlater⟩

/-- Blanks are cut off before anything that is not one. -/
theorem lexeme_blanks {w rest : Text} (hne : w ≠ []) (hw : w.IsBlanks)
    (hrest : rest.Opens fun c => !isBlank c) : lexeme (w ++ rest) = some ⟨none, w⟩ := by
  obtain ⟨c, cs, rfl⟩ := List.exists_cons_of_ne_nil hne
  have hblanks : blanks (c :: cs ++ rest) = c :: cs := takeWhile_append_of_opens hw hrest
  rw [List.cons_append, lexeme_blank (hw c List.mem_cons_self), ← List.cons_append, hblanks]

/-- Line breaks are cut off before anything that goes on with no blank or line break. -/
theorem lexeme_lineRun {r rest : Text} (hr : r.IsLineRun) (hrest : rest.Opens isSolid) :
    lexeme (r ++ rest) = some ⟨some .newline, r⟩ := by
  have hrun : lineRun false (r ++ rest) = r := by
    rw [lineRun_run_append hr, lineRun_eq_nil_of_opens hrest, List.append_nil]
  obtain ⟨c, cs, hcons⟩ : ∃ c cs, r = c :: cs := Lexeme.IsProper.exists_cons (.newline hr)
  subst hcons
  rw [List.cons_append] at hrun ⊢
  rw [lexeme_of_break (isBreak_of_isLineRun hr) (by rw [hrun]; exact List.cons_ne_nil _ _), hrun]

/-- No blank follows blanks. -/
theorem opens_behind_blanks {l : Lexeme} {rest : Text} (h : lexeme (l.text ++ rest) = some l)
    (hkind : l.kind = none) : rest.Opens fun c => !isBlank c := by
  obtain ⟨hproper, -, hlongest⟩ := lexeme_eq_some_iff.1 h
  cases rest with
  | nil => exact fun c hc => absurd hc (Option.not_mem_none c)
  | cons c rest =>
      rw [Text.opens_cons, Bool.not_eq_true', ← Bool.not_eq_true]
      intro hc
      -- the blank would make a longer lexeme
      have hlonger : Lexeme.IsProper ⟨none, l.text ++ [c]⟩ :=
        .blanks (by simp) ((hproper.isBlanks hkind).append (List.forall_mem_singleton.2 hc))
      have hle := hlongest _ hlonger ⟨rest, by simp⟩
      simp only [List.length_append, List.length_singleton] at hle
      omega

/-- Nothing but solid lexemes follows line breaks. -/
theorem isSolid_behind_newline {l m : Lexeme} {rest : Text}
    (h : lexeme (l.text ++ (m.text ++ rest)) = some l) (hkind : l.kind = some .newline)
    (hm : m.IsProper) : m.IsSolid := by
  obtain ⟨hproper, -, hlongest⟩ := lexeme_eq_some_iff.1 h
  have hpos : 0 < m.text.length := List.length_pos_iff.2 hm.text_ne_nil
  have hrun := hproper.isLineRun hkind
  -- blanks or line breaks would make a longer lexeme
  have hnot (hlonger : Text.IsLineRun (l.text ++ m.text)) : False := by
    have hle := hlongest ⟨some .newline, l.text ++ m.text⟩ (.newline hlonger) ⟨rest, by simp⟩
    simp only [List.length_append] at hle
    omega
  constructor
  · exact fun hnone => hnot (hrun.append_blanks (hm.isBlanks hnone))
  · exact fun hnewline => hnot (hrun.append (hm.isLineRun hnewline))

theorem opens_of_isSolid {l : Lexeme} (hproper : l.IsProper) (hl : l.IsSolid) (rest : Text) :
    Text.Opens isSolid (l.text ++ rest) := by
  obtain ⟨c, cs, hcons⟩ := hproper.exists_cons
  rw [hcons]
  exact Text.opens_cons.2 ((hproper.isSolid_iff (by simp [hcons])).2 hl)

/-! ## Other text behind lexemes -/

/-- Blanks and line breaks end before the lexeme after them, whatever comes behind that. -/
theorem lexeme_append_of_not_isSolid {l m : Lexeme} {rest : Text}
    (h : lexeme (l.text ++ (m.text ++ rest)) = some l) (hl : ¬l.IsSolid) (hm : m.IsProper)
    (rest' : Text) : lexeme (l.text ++ (m.text ++ rest')) = some l := by
  have hproper : l.IsProper := (isProper_of_lexeme h).1
  by_cases hkind : l.kind = none
  · have hopen : Text.Opens (fun c => !isBlank c) (m.text ++ rest') := by
      have hbehind := opens_behind_blanks h hkind
      obtain ⟨c, cs, hcons⟩ := hm.exists_cons
      rw [hcons] at hbehind ⊢
      exact Text.opens_cons.2 (Text.opens_cons.1 hbehind)
    have heq := lexeme_blanks hproper.text_ne_nil (hproper.isBlanks hkind) hopen
    rwa [← hkind] at heq
  · have hnewline : l.kind = some .newline := Lexeme.kind_eq_newline hl hkind
    have hopen := opens_of_isSolid hm (isSolid_behind_newline h hnewline hm) rest'
    have heq := lexeme_lineRun (hproper.isLineRun hnewline) hopen
    rwa [← hnewline] at heq

/-- What may stand behind a lexeme when blanks and line breaks are put there. -/
def Lexeme.Ends (l : Lexeme) (rest : Text) : Prop :=
  l.IsSolid ∨ l.kind = none ∧ rest.Opens fun c => !isBlank c

/-- Lexemes stay the same when the text behind them is replaced by one that starts with blanks or
line breaks. -/
theorem AreCut.replace {ls old new : List Lexeme} (h : AreCut (ls ++ old)) (hnew : AreCut new)
    (hopens : Text.Opens (fun c => !isSolid c) (textOf new))
    (hlast : ∀ l ∈ ls.getLast?, l.Ends (textOf new)) : AreCut (ls ++ new) := by
  induction ls with
  | nil => exact hnew
  | cons l ls ih =>
      have hcut := h.of_append_left
      rw [List.cons_append] at h ⊢
      cases h with
      | cons hl hs =>
          have hlater : ∀ m ∈ ls.getLast?, m.Ends (textOf new) := by
            intro m hm
            exact hlast m (by rw [List.getLast?_cons, Option.mem_def.1 hm]; rfl)
          refine .cons ?_ (ih hs hlater)
          rw [textOf_append]
          by_cases hsolid : l.IsSolid
          · cases hcut with
            | cons hl' _ => exact lexeme_append_of_isSolid hl' hsolid hopens
          have hproper : l.IsProper := (isProper_of_lexeme hl).1
          cases ls with
          | nil =>
              -- a lexeme that is not solid and yet ends here is blanks
              obtain ⟨hkind, hblank⟩ := (hlast l rfl).resolve_left hsolid
              have heq := lexeme_blanks hproper.text_ne_nil (hproper.isBlanks hkind) hblank
              rwa [← hkind] at heq
          | cons m ls =>
              have hm : m.IsProper := hcut.isProper m (by simp)
              rw [textOf_append, textOf_cons, List.append_assoc] at hl
              rw [textOf_cons, List.append_assoc]
              exact lexeme_append_of_not_isSolid hl hsolid hm _

/-! ## Changes of layout -/

/-- No other lexeme than blanks starts with a blank. -/
theorem opens_of_kind_ne_none {l : Lexeme} (hproper : l.IsProper) (hkind : l.kind ≠ none)
    (rest : Text) : Text.Opens (fun c => !isBlank c) (l.text ++ rest) := by
  by_cases hsolid : l.IsSolid
  · exact (opens_of_isSolid hproper hsolid rest).mono fun c hc => not_isBlank_of_isSolid hc
  · have hrun := hproper.isLineRun (Lexeme.kind_eq_newline hsolid hkind)
    obtain ⟨c, cs, hcons⟩ := hproper.exists_cons
    rw [hcons] at hrun ⊢
    refine Text.opens_cons.2 ?_
    rcases (by simpa [isBreak] using isBreak_of_isLineRun hrun : c = '\n' ∨ c = '\r') with
      rfl | rfl <;> decide

/-- Lexemes that end with no line breaks stay cut when line breaks come behind them with others that
begin with no blanks or line breaks. -/
theorem AreCut.join {ls old ms : List Lexeme} (h : AreCut (ls ++ old)) (h' : AreCut ms)
    (hlast : ∀ l ∈ ls.getLast?, l.kind ≠ some .newline) (hfirst : ∀ l ∈ ms.head?, l.IsSolid)
    {r : Text} (hr : r.IsLineRun) : AreCut (ls ++ ⟨some .newline, r⟩ :: ms) := by
  have hproper : Lexeme.IsProper ⟨some .newline, r⟩ := .newline hr
  have hopens : Text.Opens isSolid (textOf ms) := by
    cases ms with
    | nil => exact fun c hc => absurd hc (Option.not_mem_none c)
    | cons m ms =>
        exact opens_of_isSolid (h'.isProper m List.mem_cons_self) (hfirst m rfl) (textOf ms)
  refine h.replace (.cons (lexeme_lineRun hr hopens) h') ?_ ?_
  · obtain ⟨c, cs, rfl⟩ : ∃ c cs, r = c :: cs := hproper.exists_cons
    exact Text.opens_cons.2 (by rw [hr.not_isSolid c List.mem_cons_self]; rfl)
  · intro l hl
    by_cases hnone : l.kind = none
    · exact .inr ⟨hnone, opens_of_kind_ne_none hproper (Option.some_ne_none _) _⟩
    · exact .inl ⟨hnone, hlast l hl⟩

/-- Lexemes stay cut with other line breaks in the place of some. -/
theorem AreCut.replace_newline {ls ms : List Lexeme} {l : Lexeme} (h : AreCut (ls ++ l :: ms))
    (hkind : l.kind = some .newline) {r : Text} (hr : r.IsLineRun) :
    AreCut (ls ++ ⟨some .newline, r⟩ :: ms) := by
  have hright : AreCut ([l] ++ ms) := h.of_append_right
  have hms : AreCut ms := hright.of_append_right
  refine h.join hms ?_ ?_ hr
  -- line breaks do not follow line breaks
  · intro m hm hnewline
    obtain ⟨before, rfl⟩ := List.getLast?_eq_some_iff.1 hm
    rw [List.append_assoc, List.singleton_append] at h
    cases h.of_append_right with
    | cons hm' hlater =>
        have hl := hlater.isProper l List.mem_cons_self
        exact (isSolid_behind_newline hm' hnewline hl).2 hkind
  -- what follows line breaks does not go on with them
  · intro m hm
    obtain ⟨later, rfl⟩ := List.head?_eq_some_iff.1 hm
    cases hright with
    | cons hl _ => exact isSolid_behind_newline hl hkind (hms.isProper m List.mem_cons_self)

theorem bareLexemes_replace_newline {ls ms : List Lexeme} {l : Lexeme}
    (hkind : l.kind = some .newline) (r : Text) :
    bareLexemes (ls ++ ⟨some .newline, r⟩ :: ms) = bareLexemes (ls ++ l :: ms) := by
  have htouches : ∀ m : Lexeme, m.kind = some .newline → ∀ k ∈ ls.getLast?,
      k.touches (m :: ms) = false := by
    intro m hm k _
    simp [Lexeme.touches, hm]
  have hfalse : ∀ m : Lexeme, m.kind = some .newline → m.touches ms = false := by
    intro m hm
    cases ms <;> simp [Lexeme.touches, hm, Terminal.isPlusOrMinus]
  rw [bareLexemes_append (htouches _ rfl), bareLexemes_append (htouches l hkind),
    bareLexemes_cons_of_some rfl, bareLexemes_cons_of_some hkind, hfalse _ rfl, hfalse l hkind]
  rfl

/-- Lexemes stay cut with other blanks between two of them, or blanks where there were none; only
line breaks take in the blanks behind them. -/
theorem AreCut.exists_respaced {ls gap ms : List Lexeme} (h : AreCut (ls ++ (gap ++ ms)))
    (hgap : ∀ l ∈ gap, l.kind = none) (hls : ∀ l ∈ ls.getLast?, l.kind ≠ none)
    (hms : ∀ l ∈ ms.head?, l.kind ≠ none) {w : Text} (hne : w ≠ []) (hw : w.IsBlanks) :
    ∃ ls' ms', AreCut (ls' ++ ms') ∧ textOf (ls' ++ ms') = textOf ls ++ (w ++ textOf ms) ∧
      bareLexemes ls' = bareLexemes ls ∧ bareLexemes ms' = bareLexemes ms ∧
      ∀ l ∈ ls'.getLast?, l.touches ms' = false := by
  have hcut : AreCut ms := h.of_append_right.of_append_right
  by_cases hnewline : ∃ l ∈ ls.getLast?, l.kind = some .newline
  · obtain ⟨l, hl, hkind⟩ := hnewline
    obtain ⟨before, rfl⟩ := List.getLast?_eq_some_iff.1 hl
    rw [List.append_assoc, List.singleton_append] at h
    have hright := h.of_append_right
    have hrun := (hright.isProper l List.mem_cons_self).isLineRun hkind
    -- there is no gap behind line breaks
    obtain rfl : gap = [] := by
      cases gap with
      | nil => rfl
      | cons g gap =>
          cases hright with
          | cons hl' hlater =>
              have hsolid := isSolid_behind_newline hl' hkind (hlater.isProper g (by simp))
              exact absurd (hgap g List.mem_cons_self) hsolid.1
    refine ⟨before ++ [⟨some .newline, l.text ++ w⟩], ms, ?_, by simp, ?_, rfl, ?_⟩
    · rw [List.append_assoc, List.singleton_append]
      exact h.replace_newline hkind (hrun.append_blanks hw)
    · exact bareLexemes_replace_newline hkind _
    · intro m hm
      rw [List.getLast?_concat] at hm
      obtain rfl := Option.some.inj hm
      cases ms <;> rfl
  · refine ⟨ls, ⟨none, w⟩ :: ms, ?_, by simp, rfl, bareLexemes_cons_of_none rfl ms, ?_⟩
    · have hopens : Text.Opens (fun c => !isBlank c) (textOf ms) := by
        cases ms with
        | nil => exact fun c hc => absurd hc (Option.not_mem_none c)
        | cons m ms =>
            exact opens_of_kind_ne_none (hcut.isProper m List.mem_cons_self) (hms m rfl) (textOf ms)
      refine h.replace (.cons (lexeme_blanks hne hw hopens) hcut) ?_ ?_
      · obtain ⟨c, cs, rfl⟩ := List.exists_cons_of_ne_nil hne
        exact Text.opens_cons.2 (by rw [not_isSolid_of_isBlank (hw c List.mem_cons_self)]; rfl)
      · exact fun l hl => .inl ⟨hls l hl, fun hkind => hnewline ⟨l, hl, hkind⟩⟩
    · intro l _
      simp [Lexeme.touches]

/-! ## Texts -/

/-- Other text in the place of a token is the text of another lexeme in the place of its lexeme. -/
theorem replace_textOf {ls₁ ls₂ : List Lexeme} {l : Lexeme} {t : Token}
    (ht : t = Token.at t.kind l.text (Position.origin.advance (textOf ls₁)))
    (kind : Option Terminal) (r : Text) :
    (textOf (ls₁ ++ l :: ls₂)).take t.start.offset ++
      (r ++ (textOf (ls₁ ++ l :: ls₂)).drop t.stop) = textOf (ls₁ ++ ⟨kind, r⟩ :: ls₂) := by
  have hstart : t.start.offset = (textOf ls₁).length := by
    rw [ht]
    exact Position.advance_origin_offset _
  have hstop : t.stop = (textOf ls₁ ++ l.text).length := by
    rw [ht, List.length_append, ← hstart, ht]
    exact Position.advance_offset _ _
  have hsplit : textOf (ls₁ ++ l :: ls₂) = (textOf ls₁ ++ l.text) ++ textOf ls₂ := by simp
  rw [hstop, hsplit, List.drop_left, hstart, List.append_assoc, List.take_left]
  simp

/-- Another newline token in the place of one leaves the tokens what they are but for their
places. -/
theorem lex_replace_newline {text : Text} (hrest : (lex text).rest = [])
    {before after : List Token} {t : Token} (htokens : (lex text).tokens = before ++ t :: after)
    (ht : t.kind = .newline) {r : Text} (hr : r.IsLineRun) :
    (lex (text.take t.start.offset ++ (r ++ text.drop t.stop))).rest = [] ∧
      bare (lex (text.take t.start.offset ++ (r ++ text.drop t.stop))).tokens =
        bare (lex text).tokens := by
  obtain ⟨ls, hls, rfl, hplace⟩ := lex_rest_eq_nil_iff.1 hrest
  rw [hplace] at htokens ⊢
  obtain ⟨ls₁, l, ls₂, rfl, -, hkind, heq, -⟩ := exists_of_place_eq htokens
  rw [ht] at hkind
  have hcut := hls.replace_newline hkind hr
  obtain ⟨hrest', htokens'⟩ := lex_textOf hcut
  rw [replace_textOf heq (some .newline) r]
  refine ⟨hrest', ?_⟩
  rw [htokens', bare_place hcut.text_ne_nil, bare_place hls.text_ne_nil,
    bareLexemes_replace_newline hkind]

/-- A place in a text that is within no token is among the blanks between two lexemes. -/
theorem exists_gap_at {ls : List Lexeme} {a b : Text} {before after : List Token}
    (htext : textOf ls = a ++ b) (htokens : place .origin ls = before ++ after)
    (hbefore : ∀ t ∈ before, t.stop ≤ a.length) (hafter : ∀ t ∈ after, a.length ≤ t.start.offset) :
    ∃ ls₁ gap ms g₁ g₂, ls = ls₁ ++ (gap ++ ms) ∧ textOf gap = g₁ ++ g₂ ∧
      a = textOf ls₁ ++ g₁ ∧ b = g₂ ++ textOf ms ∧ (∀ l ∈ gap, l.kind = none) ∧
      (∀ l ∈ ls₁.getLast?, l.kind ≠ none) ∧ (∀ l ∈ ms.head?, l.kind ≠ none) ∧
      place .origin ls₁ = before ∧
      place ((Position.origin.advance (textOf ls₁)).advance (textOf gap)) ms = after := by
  obtain ⟨ls₁, ls₂, rfl, hls₁, hls₂, hlast, hlow⟩ := exists_split htokens
  obtain ⟨gap, ms, rfl, hgap, hhead, hms, hhigh⟩ :=
    exists_gap (Position.origin.advance (textOf ls₁)) ls₂
  have hlow : (textOf ls₁).length ≤ a.length := by
    have hle := hlow a.length (Nat.zero_le _) hbefore
    rwa [Position.advance_origin_offset] at hle
  have hhigh : a.length ≤ (textOf ls₁ ++ textOf gap).length := by
    have hle := hhigh a.length ?_ (by rwa [hls₂])
    · rwa [← Position.advance_append, Position.advance_origin_offset] at hle
    · rw [← Position.advance_append, Position.advance_origin_offset, ← textOf_append, htext,
        List.length_append]
      exact Nat.le_add_right _ _
  -- what is before the place ends within the gap
  obtain ⟨g₁, rfl⟩ : textOf ls₁ <+: a :=
    List.prefix_of_prefix_length_le ⟨_, by rw [← htext, textOf_append]⟩
      (List.prefix_append a b) hlow
  rw [textOf_append, textOf_append, List.append_assoc] at htext
  have hg : textOf gap ++ textOf ms = g₁ ++ b := List.append_cancel_left htext
  obtain ⟨g₂, hg₂⟩ : g₁ <+: textOf gap := by
    refine List.prefix_of_prefix_length_le ⟨b, hg.symm⟩ (List.prefix_append _ _) ?_
    rw [List.length_append, List.length_append] at hhigh
    omega
  rw [← hg₂, List.append_assoc] at hg
  exact ⟨ls₁, gap, ms, g₁, g₂, rfl, hg₂.symm, rfl, (List.append_cancel_left hg).symm, hgap, hlast,
    hhead, hls₁, hms.trans hls₂⟩

/-- Blanks put in a text anywhere but within a token leave the tokens on either side what they are
but for their places. -/
theorem lex_respace {a b : Text} (hrest : (lex (a ++ b)).rest = []) {before after : List Token}
    (htokens : (lex (a ++ b)).tokens = before ++ after) (hbefore : ∀ t ∈ before, t.stop ≤ a.length)
    (hafter : ∀ t ∈ after, a.length ≤ t.start.offset) {w : Text} (hw : w.IsBlanks) :
    (lex (a ++ (w ++ b))).rest = [] ∧
      ∃ before' after', (lex (a ++ (w ++ b))).tokens = before' ++ after' ∧
        bare before' = bare before ∧ bare after' = bare after ∧
        (Apart before after → bare (before' ++ after') = bare (before ++ after)) := by
  obtain ⟨ls, hls, htext, hplace⟩ := lex_rest_eq_nil_iff.1 hrest
  rw [hplace] at htokens
  -- the lexemes of the tokens before the place, then blanks, then the others
  obtain ⟨ls₁, gap, ms, g₁, g₂, rfl, hg, rfl, rfl, hgap, hlast, hhead, hls₁, hms⟩ :=
    exists_gap_at htext htokens hbefore hafter
  by_cases hne : g₁ ++ (w ++ g₂) = []
  · -- nothing is put in
    obtain rfl : w = [] := by simp_all
    refine ⟨hrest, before, after, ?_, rfl, rfl, fun _ => rfl⟩
    rw [← htokens, ← hplace, List.nil_append]
  · have hblanks : Text.IsBlanks (g₁ ++ (w ++ g₂)) := by
      have hboth : Text.IsBlanks (g₁ ++ g₂) := by
        rw [← hg]
        intro c hc
        obtain ⟨l, hl, hc⟩ := List.mem_flatMap.1 hc
        exact (hls.isProper l (by simp [hl])).isBlanks (hgap l hl) c hc
      obtain ⟨hg₁, hg₂⟩ := List.forall_mem_append.1 hboth
      exact Text.IsBlanks.append hg₁ (Text.IsBlanks.append hw hg₂)
    obtain ⟨ls', ms', hcut, htext', hls', hms', hapart⟩ :=
      hls.exists_respaced hgap hlast hhead hne hblanks
    have hnew : textOf ls₁ ++ g₁ ++ (w ++ (g₂ ++ textOf ms)) = textOf (ls' ++ ms') := by
      rw [htext']
      simp only [List.append_assoc]
    obtain ⟨hrest', htokens'⟩ := lex_textOf hcut
    rw [hnew]
    have hbare : bare before = bareLexemes ls₁ ∧ bare after = bareLexemes ms := by
      rw [← hls₁, ← hms]
      exact ⟨bare_place hls.of_append_left.text_ne_nil _,
        bare_place hls.of_append_right.of_append_right.text_ne_nil _⟩
    refine ⟨hrest', place .origin ls', place (Position.origin.advance (textOf ls')) ms', ?_, ?_, ?_,
      fun h => ?_⟩
    · rw [htokens', place_append]
    · rw [bare_place hcut.of_append_left.text_ne_nil, hls', hbare.1]
    · rw [bare_place hcut.of_append_right.text_ne_nil, hms', hbare.2]
    · rw [← place_append, bare_place hcut.text_ne_nil, bareLexemes_append hapart, hls', hms',
        bare_append h, hbare.1, hbare.2]

end Spruce
