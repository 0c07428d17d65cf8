import Mathlib.Data.List.DropRight
import Spruce.Proofs.Token.Layout

set_option autoImplicit false

/-!
# Texts joined by a line feed

Two texts that are cut to their ends can be joined by a line feed (`lex_join`). The tokens of the
first stay, and those of the second move with their text (`place_moved`); only the newline tokens
that the first ends with and the second begins with merge with the line feed into one. Blanks at the
beginning of the second become part of it as well, as blanks go on with line breaks
(`isLineRun_append_leading`), while those at the end of the first do not.

Main definitions: `Position.moved` and `Token.moved`, places and tokens further on in a text.
-/

namespace Spruce

/-! ## Moving -/

/-- A place further on in a text, by some characters and lines. -/
def Position.moved (offset lines : Nat) (p : Position) : Position :=
  ⟨p.offset + offset, p.line + lines, p.column⟩

/-- A token further on in a text. -/
def Token.moved (offset lines : Nat) (t : Token) : Token :=
  { t with start := t.start.moved offset lines, stop := t.stop + offset }

theorem Position.next_moved (offset lines : Nat) (p : Position) (c : Char) :
    (p.moved offset lines).next c = (p.next c).moved offset lines := by
  unfold Position.next
  split
  · exact congrArg₂ (fun a b => Position.mk a b 1) (Nat.add_right_comm _ _ _)
      (Nat.add_right_comm _ _ _)
  · exact congrArg (fun a => Position.mk a _ _) (Nat.add_right_comm _ _ _)

theorem Position.advance_moved (offset lines : Nat) (p : Position) (cs : Text) :
    (p.moved offset lines).advance cs = (p.advance cs).moved offset lines := by
  induction cs generalizing p with
  | nil => rfl
  | cons c cs ih => rw [Position.advance_cons, Position.advance_cons, next_moved, ih]

/-- The tokens of lexemes move with them. -/
theorem place_moved (offset lines : Nat) (p : Position) (ls : List Lexeme) :
    place (p.moved offset lines) ls = (place p ls).map (Token.moved offset lines) := by
  induction ls generalizing p with
  | nil => rfl
  | cons l ls ih =>
      cases hkind : l.kind with
      | none =>
          rw [place_cons_of_none hkind, place_cons_of_none hkind, Position.advance_moved, ih]
      | some kind =>
          rw [place_cons_of_some hkind, place_cons_of_some hkind, List.map_cons,
            Position.advance_moved, ih]
          exact congrArg (fun stop => Token.mk kind l.text _ stop :: _)
            (congrArg Position.offset (Position.advance_moved offset lines p l.text))

theorem Position.advance_line (p : Position) (cs : Text) :
    (p.advance cs).line = p.line + cs.count '\n' := by
  induction cs generalizing p with
  | nil => rfl
  | cons c cs ih =>
      rw [Position.advance_cons, ih, List.count_cons, Position.next]
      by_cases hc : c = '\n'
      · simp only [hc, if_pos, beq_self_eq_true]
        omega
      · simp only [if_neg hc, beq_eq_false_iff_ne.2 hc, Bool.false_eq_true, if_false]
        rfl

/-- The place after a line feed is the beginning of a line. -/
theorem Position.advance_origin_line_feed (cs : Text) :
    Position.origin.advance (cs ++ ['\n']) =
      Position.origin.moved (cs.length + 1) (cs.count '\n' + 1) := by
  rw [Position.advance_append, Position.advance_cons, Position.advance_nil, Position.next,
    if_pos rfl, Position.advance_offset, Position.advance_line, Position.moved, Nat.add_assoc,
    Nat.add_assoc]
  rfl

/-! ## Newlines at either end -/

/-- A newline token. -/
def Token.isNewline (t : Token) : Bool := t.kind = .newline

section

variable {α : Type} {p : α → Bool} {xs ys : List α}

/-- What elements end with comes off no further than to one that stays. -/
theorem rdropWhile_append (hxs : ∀ x ∈ xs.getLast?, p x = false) (ys : List α) :
    (xs ++ ys).rdropWhile p = xs ++ ys.rdropWhile p := by
  induction ys using List.reverseRecOn with
  | nil =>
      rw [List.append_nil, List.rdropWhile_nil, List.append_nil, List.rdropWhile_eq_self_iff]
      intro hne
      rw [hxs _ (List.getLast?_eq_getLast_of_ne_nil hne)]
      exact Bool.false_ne_true
  | append_singleton ys y ih =>
      rw [← List.append_assoc, List.rdropWhile_concat, List.rdropWhile_concat, ih]
      split
      · rfl
      · exact List.append_assoc _ _ _

/-- What elements begin with comes off before one that stays. -/
theorem dropWhile_append (hxs : ∀ x ∈ xs, p x = true) (hys : ∀ y ∈ ys.head?, p y = false) :
    (xs ++ ys).dropWhile p = ys := by
  rw [List.dropWhile_append_of_pos hxs]
  cases ys with
  | nil => rfl
  | cons y ys => exact List.dropWhile_cons_of_neg (by rw [hys y rfl]; exact Bool.false_ne_true)

end

/-- Lexemes of which none is solid leave nothing but newline tokens. -/
theorem isNewline_of_mem_place {ls : List Lexeme} (h : ∀ l ∈ ls, ¬l.IsSolid) (p : Position) :
    ∀ t ∈ place p ls, t.isNewline = true := by
  intro t ht
  obtain ⟨before, after, hsplit⟩ := List.append_of_mem ht
  obtain ⟨ls₁, l, ls₂, rfl, -, hkind, -, -⟩ := exists_of_place_eq hsplit
  have hne : l.kind ≠ none := by
    rw [hkind]
    exact Option.some_ne_none _
  have hnewline := Lexeme.kind_eq_newline (h l (by simp)) hne
  exact decide_eq_true (Option.some.inj (hkind.symm.trans hnewline))

/-- The token that a solid lexeme begins with is no newline. -/
theorem not_isNewline_of_head {ls : List Lexeme} (h : ∀ l ∈ ls.head?, l.IsSolid) (p : Position) :
    ∀ t ∈ (place p ls).head?, t.isNewline = false := by
  cases ls with
  | nil => exact fun t ht => absurd ht (Option.not_mem_none t)
  | cons l ls =>
      obtain ⟨hnone, hnewline⟩ := h l rfl
      obtain ⟨kind, hkind⟩ := Option.ne_none_iff_exists'.1 hnone
      rw [place_cons_of_some hkind]
      intro t ht
      obtain rfl := Option.some.inj ht
      exact decide_eq_false fun heq => hnewline (hkind.trans (congrArg some heq))

/-- The newline token that lexemes end with is that of the last of them, as no blanks follow line
breaks. -/
theorem AreCut.not_isNewline_of_getLast {ls : List Lexeme} (h : AreCut ls)
    (hlast : ∀ l ∈ ls.getLast?, l.kind ≠ some .newline) (p : Position) :
    ∀ t ∈ (place p ls).getLast?, t.isNewline = false := by
  intro t ht
  rw [Token.isNewline, decide_eq_false_iff_not]
  intro hnewline
  obtain ⟨before, hsplit⟩ := List.getLast?_eq_some_iff.1 ht
  obtain ⟨ls₁, l, ls₂, rfl, -, hkind, -, hafter⟩ := exists_of_place_eq hsplit
  rw [hnewline] at hkind
  cases ls₂ with
  | nil => exact hlast l (by simp) hkind
  | cons m ls₂ =>
      cases h.of_append_right with
      | cons hl hlater =>
          -- what follows the line breaks has a token of its own
          have hsolid := isSolid_behind_newline hl hkind (hlater.isProper m List.mem_cons_self)
          obtain ⟨kind, hm⟩ := Option.ne_none_iff_exists'.1 hsolid.1
          rw [place_cons_of_some hm] at hafter
          exact absurd hafter (List.cons_ne_nil _ _)

/-- The line breaks that lexemes end with come off. -/
theorem exists_trailing (ls : List Lexeme) :
    ∃ core tail, ls = core ++ tail ∧ (∀ l ∈ tail, l.kind = some .newline) ∧
      ∀ l ∈ core.getLast?, l.kind ≠ some .newline := by
  induction ls using List.reverseRecOn with
  | nil => exact ⟨[], [], rfl, by simp, by simp⟩
  | append_singleton ls l ih =>
      by_cases hl : l.kind = some .newline
      · obtain ⟨core, tail, rfl, htail, hcore⟩ := ih
        refine ⟨core, tail ++ [l], List.append_assoc _ _ _, ?_, hcore⟩
        exact List.forall_mem_append.2 ⟨htail, List.forall_mem_singleton.2 hl⟩
      · exact ⟨ls ++ [l], [], (List.append_nil _).symm, by simp, by simpa using hl⟩

/-- The blanks and line breaks that lexemes begin with come off. -/
theorem exists_leading (ls : List Lexeme) :
    ∃ lead core, ls = lead ++ core ∧ (∀ l ∈ lead, ¬l.IsSolid) ∧ ∀ l ∈ core.head?, l.IsSolid := by
  induction ls with
  | nil => exact ⟨[], [], rfl, by simp, by simp⟩
  | cons l ls ih =>
      by_cases hl : l.IsSolid
      · exact ⟨[], l :: ls, rfl, by simp, by simpa using hl⟩
      · obtain ⟨lead, core, rfl, hlead, hcore⟩ := ih
        exact ⟨l :: lead, core, rfl, List.forall_mem_cons.2 ⟨hl, hlead⟩, hcore⟩

/-- Line breaks go on with line breaks and blanks. -/
theorem isLineRun_append_leading {lead : List Lexeme} (hproper : ∀ l ∈ lead, l.IsProper)
    (hlead : ∀ l ∈ lead, ¬l.IsSolid) {r : Text} (hr : r.IsLineRun) :
    Text.IsLineRun (r ++ textOf lead) := by
  induction lead generalizing r with
  | nil => rwa [textOf_nil, List.append_nil]
  | cons l lead ih =>
      obtain ⟨hl, hlater⟩ := List.forall_mem_cons.1 hproper
      obtain ⟨hsolid, hlead⟩ := List.forall_mem_cons.1 hlead
      rw [textOf_cons, ← List.append_assoc]
      refine ih hlater hlead ?_
      by_cases hkind : l.kind = none
      · exact hr.append_blanks (hl.isBlanks hkind)
      · exact hr.append (hl.isLineRun (Lexeme.kind_eq_newline hsolid hkind))

/-- Line breaks may come before line breaks. -/
theorem isLineRun_trailing_append {tail : List Lexeme} (hproper : ∀ l ∈ tail, l.IsProper)
    (htail : ∀ l ∈ tail, l.kind = some .newline) {r : Text} (hr : r.IsLineRun) :
    Text.IsLineRun (textOf tail ++ r) := by
  induction tail with
  | nil => exact hr
  | cons l tail ih =>
      obtain ⟨hl, hlater⟩ := List.forall_mem_cons.1 hproper
      obtain ⟨hkind, htail⟩ := List.forall_mem_cons.1 htail
      rw [textOf_cons, List.append_assoc]
      exact (hl.isLineRun hkind).append (ih hlater htail)

/-! ## Joining -/

/-- Two texts joined by a line feed have the tokens of the first but for the newlines it ends with,
a newline token, and the tokens of the second but for the newlines it begins with, all further on by
the first text and the line feed. -/
theorem lex_join {text text' : Text} (h : (lex text).rest = []) (h' : (lex text').rest = []) :
    (lex (text ++ '\n' :: text')).rest = [] ∧
      ∃ newline : Token, newline.kind = .newline ∧
        (lex (text ++ '\n' :: text')).tokens =
          (lex text).tokens.rdropWhile Token.isNewline ++ newline ::
            ((lex text').tokens.dropWhile Token.isNewline).map
              (Token.moved (text.length + 1) (text.count '\n' + 1)) := by
  obtain ⟨ls, hls, rfl, htokens⟩ := lex_rest_eq_nil_iff.1 h
  obtain ⟨ls', hls', rfl, htokens'⟩ := lex_rest_eq_nil_iff.1 h'
  rw [htokens, htokens']
  obtain ⟨core, tail, rfl, htail, hcore⟩ := exists_trailing ls
  obtain ⟨lead, core', rfl, hlead, hcore'⟩ := exists_leading ls'
  -- the line breaks on either side are one with the line feed
  have hfeed : Text.IsLineRun ['\n'] :=
    ⟨[['\n']], List.cons_ne_nil _ _, List.forall_mem_singleton.2 ⟨[], .nil, .inl rfl⟩, rfl⟩
  have hrun : Text.IsLineRun (textOf tail ++ (['\n'] ++ textOf lead)) := by
    refine isLineRun_trailing_append (fun l hl => hls.isProper l (by simp [hl])) htail ?_
    exact isLineRun_append_leading (fun l hl => hls'.isProper l (by simp [hl])) hlead hfeed
  have hcut := hls.join hls'.of_append_right hcore hcore' hrun
  have htext : textOf (core ++ tail) ++ '\n' :: textOf (lead ++ core') =
      textOf (core ++ ⟨some .newline, textOf tail ++ (['\n'] ++ textOf lead)⟩ :: core') := by
    simp
  obtain ⟨hrest, hplace⟩ := lex_textOf hcut
  rw [htext]
  refine ⟨hrest, .at .newline (textOf tail ++ (['\n'] ++ textOf lead))
    (Position.origin.advance (textOf core)), rfl, ?_⟩
  have hbefore : (place .origin (core ++ tail)).rdropWhile Token.isNewline =
      place .origin core := by
    have htail : (place (Position.origin.advance (textOf core)) tail).rdropWhile Token.isNewline =
        [] := by
      rw [List.rdropWhile_eq_nil_iff]
      exact isNewline_of_mem_place (fun l hl hsolid => hsolid.2 (htail l hl)) _
    rw [place_append, rdropWhile_append (hls.of_append_left.not_isNewline_of_getLast hcore _),
      htail, List.append_nil]
  have hafter : (place .origin (lead ++ core')).dropWhile Token.isNewline =
      place (Position.origin.advance (textOf lead)) core' := by
    rw [place_append]
    exact dropWhile_append (isNewline_of_mem_place hlead _) (not_isNewline_of_head hcore' _)
  -- what comes behind the line breaks starts as far after the line feed as it did in its own text
  have hmoved : (Position.origin.advance (textOf core)).advance
      (textOf tail ++ (['\n'] ++ textOf lead)) =
        (Position.origin.advance (textOf lead)).moved ((textOf (core ++ tail)).length + 1)
          ((textOf (core ++ tail)).count '\n' + 1) := by
    rw [← Position.advance_moved, ← Position.advance_origin_line_feed, ← Position.advance_append,
      ← Position.advance_append, textOf_append]
    simp only [List.append_assoc]
  rw [hplace, hbefore, hafter, place_append, place_cons_of_some rfl, hmoved, place_moved]

end Spruce
