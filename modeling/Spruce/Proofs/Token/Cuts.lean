import Spruce.Proofs.Token.Longest

set_option autoImplicit false

/-!
# Texts as lexemes one after another

Every text is the text of lexemes each of which is cut off before what comes after it, and of a
rest that no lexeme starts (`AreCutBefore`, `exists_areCutBefore`); its tokens are those of its
lexemes that have a kind, each placed where its text stands (`place`, `lexFrom_before`). A text that
is cut to its end has no such rest (`AreCut`, `exists_areCut`). A stretch of the lexemes of a text
is again what its own text is cut into (`AreCut.of_append_left`, `AreCut.of_append_right`): what is
cut out of a text from the start of one token to the end of another has the tokens that stand there
(`exists_slice`).

Tokens come in the order of the text, and each starts where its position says (`place_sorted`,
`Token.StandsIn`).
-/

namespace Spruce

/-! ## Lexemes one after another -/

/-- The text of lexemes one after another. -/
def textOf (ls : List Lexeme) : Text := ls.flatMap Lexeme.text

@[simp] theorem textOf_nil : textOf [] = [] := rfl

@[simp] theorem textOf_cons (l : Lexeme) (ls : List Lexeme) :
    textOf (l :: ls) = l.text ++ textOf ls := List.flatMap_cons

@[simp] theorem textOf_append (ls ms : List Lexeme) :
    textOf (ls ++ ms) = textOf ls ++ textOf ms := List.flatMap_append

/-- Lexemes each of which is cut off the text that begins with it. -/
inductive AreCut : List Lexeme → Prop where
  | nil : AreCut []
  | cons {l : Lexeme} {ls : List Lexeme} (h : lexeme (l.text ++ textOf ls) = some l)
      (hs : AreCut ls) : AreCut (l :: ls)

theorem AreCut.of_append_right {ls ms : List Lexeme} (h : AreCut (ls ++ ms)) : AreCut ms := by
  induction ls with
  | nil => exact h
  | cons l ls ih =>
      cases h with
      | cons _ hs => exact ih hs

theorem AreCut.of_append_left {ls ms : List Lexeme} (h : AreCut (ls ++ ms)) : AreCut ls := by
  induction ls with
  | nil => exact .nil
  | cons l ls ih =>
      rw [List.cons_append] at h
      cases h with
      | cons h hs =>
          rw [textOf_append, ← List.append_assoc] at h
          refine .cons (lexeme_of_append h ?_) (ih hs)
          exact (List.prefix_append l.text (textOf ls)).length_le

/-- Lexemes each of which is cut off the text that begins with it and ends with a given rest. -/
inductive AreCutBefore (rest : Text) : List Lexeme → Prop where
  | nil : AreCutBefore rest []
  | cons {l : Lexeme} {ls : List Lexeme} (h : lexeme (l.text ++ (textOf ls ++ rest)) = some l)
      (hs : AreCutBefore rest ls) : AreCutBefore rest (l :: ls)

theorem AreCut.before_nil {ls : List Lexeme} (h : AreCut ls) : AreCutBefore [] ls := by
  induction h with
  | nil => exact .nil
  | cons h _ ih => exact .cons (by rwa [List.append_nil]) ih

/-- Lexemes that are cut before some rest are cut all the same without it. -/
theorem AreCutBefore.areCut {rest : Text} {ls : List Lexeme} (h : AreCutBefore rest ls) :
    AreCut ls := by
  induction h with
  | nil => exact .nil
  | @cons l ls h _ ih =>
      rw [← List.append_assoc] at h
      refine .cons (lexeme_of_append h ?_) ih
      exact (List.prefix_append l.text (textOf ls)).length_le

/-- Every text is that of lexemes cut one after another and of a rest that no lexeme starts. -/
theorem exists_areCutBefore (cs : Text) :
    ∃ ls rest, textOf ls ++ rest = cs ∧ AreCutBefore rest ls ∧ lexeme rest = none := by
  cases hl : lexeme cs with
  | none => exact ⟨[], cs, rfl, .nil, hl⟩
  | some l =>
      have hsplit : l.text ++ cs.drop l.text.length = cs := by
        obtain ⟨later, rfl⟩ := (isProper_of_lexeme hl).2
        rw [List.drop_left]
      obtain ⟨ls, rest, htext, hls, hrest⟩ := exists_areCutBefore (cs.drop l.text.length)
      refine ⟨l :: ls, rest, ?_, .cons ?_ hls, hrest⟩
      · rw [textOf_cons, List.append_assoc, htext, hsplit]
      · rw [htext, hsplit, hl]
termination_by cs.length
decreasing_by exact length_drop_lexeme hl

/-- The lexemes of a text that is cut are of the classes that there are. -/
theorem AreCut.isProper {ls : List Lexeme} (h : AreCut ls) : ∀ l ∈ ls, l.IsProper := by
  induction h with
  | nil => exact fun l hl => absurd hl List.not_mem_nil
  | cons h _ ih => exact List.forall_mem_cons.2 ⟨(isProper_of_lexeme h).1, ih⟩

/-! ## Tokens of lexemes -/

/-- The token of a lexeme that starts at a place, if it has a kind. -/
def Lexeme.tokens (p : Position) (l : Lexeme) : List Token :=
  l.kind.toList.map fun kind => Token.at kind l.text p

/-- The tokens of lexemes one after another, the first of which starts at a place. -/
def place (p : Position) : List Lexeme → List Token
  | [] => []
  | l :: ls => l.tokens p ++ place (p.advance l.text) ls

theorem place_cons_of_none {l : Lexeme} (h : l.kind = none) (p : Position) (ls : List Lexeme) :
    place p (l :: ls) = place (p.advance l.text) ls := by
  simp [place, Lexeme.tokens, h]

theorem place_cons_of_some {l : Lexeme} {kind : Terminal} (h : l.kind = some kind) (p : Position)
    (ls : List Lexeme) :
    place p (l :: ls) = Token.at kind l.text p :: place (p.advance l.text) ls := by
  simp [place, Lexeme.tokens, h]

theorem place_append (p : Position) (ls ms : List Lexeme) :
    place p (ls ++ ms) = place p ls ++ place (p.advance (textOf ls)) ms := by
  induction ls generalizing p with
  | nil => rfl
  | cons l ls ih =>
      rw [List.cons_append, place, ih, place, List.append_assoc, textOf_cons,
        Position.advance_append]

/-- Lexemes that are cut before a rest that no lexeme starts are what the whole is cut into. -/
theorem lexFrom_before {rest : Text} {ls : List Lexeme} (h : AreCutBefore rest ls)
    (hrest : lexeme rest = none) (p : Position) :
    lexFrom p (textOf ls ++ rest) = ⟨place p ls, p.advance (textOf ls), rest⟩ := by
  induction h generalizing p with
  | nil => exact lexFrom_of_none hrest p
  | @cons l ls h _ ih =>
      rw [textOf_cons, List.append_assoc, lexFrom_of_some h, List.drop_left, ih, place,
        Position.advance_append, Lexeme.tokens]
      cases l.kind <;> rfl

/-- What a text is cut into, wherever it starts. -/
theorem exists_lexFrom_eq (cs : Text) :
    ∃ ls rest, textOf ls ++ rest = cs ∧ AreCutBefore rest ls ∧ lexeme rest = none ∧
      ∀ p, lexFrom p cs = ⟨place p ls, p.advance (textOf ls), rest⟩ := by
  obtain ⟨ls, rest, rfl, hls, hrest⟩ := exists_areCutBefore cs
  exact ⟨ls, rest, rfl, hls, hrest, lexFrom_before hls hrest⟩

/-- Lexemes that are cut are what their text is cut into. -/
theorem lexFrom_textOf {ls : List Lexeme} (h : AreCut ls) (p : Position) :
    lexFrom p (textOf ls) = ⟨place p ls, p.advance (textOf ls), []⟩ := by
  have heq := lexFrom_before h.before_nil lexeme_nil p
  rwa [List.append_nil] at heq

/-- A text that is cut to its end is the text of the lexemes that it is cut into. -/
theorem exists_areCut {p : Position} {cs : Text} (h : (lexFrom p cs).rest = []) :
    ∃ ls, AreCut ls ∧ textOf ls = cs := by
  obtain ⟨ls, rest, rfl, hls, -, heq⟩ := exists_lexFrom_eq cs
  rw [heq] at h
  obtain rfl : rest = [] := h
  exact ⟨ls, hls.areCut, (List.append_nil _).symm⟩

/-- A text is cut to its end just when it is the text of lexemes that are cut; its tokens are then
theirs. -/
theorem lex_rest_eq_nil_iff {text : Text} :
    (lex text).rest = [] ↔
      ∃ ls, AreCut ls ∧ textOf ls = text ∧ (lex text).tokens = place .origin ls := by
  constructor
  · intro h
    obtain ⟨ls, hls, rfl⟩ := exists_areCut h
    exact ⟨ls, hls, rfl, by rw [lex, lexFrom_textOf hls]⟩
  · rintro ⟨ls, hls, rfl, -⟩
    rw [lex, lexFrom_textOf hls]

theorem lex_textOf {ls : List Lexeme} (h : AreCut ls) :
    (lex (textOf ls)).rest = [] ∧ (lex (textOf ls)).tokens = place .origin ls := by
  rw [lex, lexFrom_textOf h]
  exact ⟨rfl, rfl⟩

/-! ## The lexeme of a token -/

/-- A token among those of some lexemes is that of one of them, with the tokens before it and after
it on either side. -/
theorem exists_of_place_eq {p : Position} {ls : List Lexeme} {before after : List Token} {t : Token}
    (h : place p ls = before ++ t :: after) :
    ∃ ls₁ l ls₂, ls = ls₁ ++ l :: ls₂ ∧ place p ls₁ = before ∧ l.kind = some t.kind ∧
      t = Token.at t.kind l.text (p.advance (textOf ls₁)) ∧
      place (p.advance (textOf (ls₁ ++ [l]))) ls₂ = after := by
  induction ls generalizing p before with
  | nil => simp [place] at h
  | cons l ls ih =>
      cases hkind : l.kind with
      | none =>
          rw [place_cons_of_none hkind] at h
          obtain ⟨ls₁, m, ls₂, rfl, hbefore, hm, ht, hafter⟩ := ih h
          refine ⟨l :: ls₁, m, ls₂, rfl, ?_, hm, ?_, ?_⟩
          · rwa [place_cons_of_none hkind]
          · rwa [textOf_cons, Position.advance_append]
          · rwa [List.cons_append, textOf_cons, Position.advance_append]
      | some kind =>
          rw [place_cons_of_some hkind] at h
          cases before with
          -- the token is that of the first lexeme
          | nil =>
              obtain ⟨ht, hafter⟩ := List.cons.inj h
              obtain rfl : kind = t.kind := congrArg Token.kind ht
              refine ⟨[], l, ls, rfl, rfl, hkind, ht.symm, ?_⟩
              rwa [List.nil_append, textOf_cons, textOf_nil, List.append_nil]
          | cons u before =>
              obtain ⟨rfl, hlater⟩ := List.cons.inj h
              obtain ⟨ls₁, m, ls₂, rfl, hbefore, hm, ht, hafter⟩ := ih hlater
              refine ⟨l :: ls₁, m, ls₂, rfl, ?_, hm, ?_, ?_⟩
              · rw [place_cons_of_some hkind, hbefore]
              · rwa [textOf_cons, Position.advance_append]
              · rwa [List.cons_append, textOf_cons, Position.advance_append]

/-- Lexemes taken apart before the token that some tokens start with. -/
theorem exists_split_before {p : Position} {ls : List Lexeme} {before after : List Token}
    {t : Token} (h : place p ls = before ++ t :: after) :
    ∃ ls₁ ls₂, ls = ls₁ ++ ls₂ ∧ place p ls₁ = before ∧
      place (p.advance (textOf ls₁)) ls₂ = t :: after ∧ t.start = p.advance (textOf ls₁) := by
  obtain ⟨ls₁, l, ls₂, rfl, hbefore, -, ht, -⟩ := exists_of_place_eq h
  rw [place_append, hbefore] at h
  exact ⟨ls₁, l :: ls₂, rfl, hbefore, List.append_cancel_left h, congrArg Token.start ht⟩

/-- Lexemes taken apart behind the token that some tokens end with. -/
theorem exists_split_behind {p : Position} {ls : List Lexeme} {before after : List Token}
    {t : Token} (h : place p ls = before ++ t :: after) :
    ∃ ls₁ ls₂, ls = ls₁ ++ ls₂ ∧ place p ls₁ = before ++ [t] ∧
      place (p.advance (textOf ls₁)) ls₂ = after ∧ (∀ l ∈ ls₁.getLast?, l.kind ≠ none) ∧
      t.stop = (p.advance (textOf ls₁)).offset := by
  obtain ⟨ls₁, l, ls₂, rfl, hbefore, hkind, ht, hafter⟩ := exists_of_place_eq h
  refine ⟨ls₁ ++ [l], ls₂, by simp, ?_, hafter, by simp [hkind], ?_⟩
  · rw [place_append, hbefore, place_cons_of_some hkind]
    exact congrArg (fun u => before ++ [u]) ht.symm
  · rw [textOf_append, Position.advance_append, textOf_cons, textOf_nil, List.append_nil]
    exact congrArg Token.stop ht

/-- Lexemes taken apart behind the last of some tokens. -/
theorem exists_split {p : Position} {ls : List Lexeme} {before after : List Token}
    (h : place p ls = before ++ after) :
    ∃ ls₁ ls₂, ls = ls₁ ++ ls₂ ∧ place p ls₁ = before ∧
      place (p.advance (textOf ls₁)) ls₂ = after ∧ (∀ l ∈ ls₁.getLast?, l.kind ≠ none) ∧
      ∀ n, p.offset ≤ n → (∀ t ∈ before, t.stop ≤ n) → (p.advance (textOf ls₁)).offset ≤ n := by
  rcases List.eq_nil_or_concat before with rfl | ⟨before, t, rfl⟩
  · exact ⟨[], ls, rfl, rfl, h, by simp, fun n hn _ => hn⟩
  · rw [List.concat_eq_append, List.append_assoc, List.singleton_append] at h
    obtain ⟨ls₁, ls₂, rfl, hbefore, hafter, hlast, hstop⟩ := exists_split_behind h
    rw [List.concat_eq_append]
    refine ⟨ls₁, ls₂, rfl, hbefore, hafter, hlast, fun n _ hle => ?_⟩
    rw [← hstop]
    exact hle t (by simp)

/-- Blanks come off before the first token of some lexemes. -/
theorem exists_gap (p : Position) (ls : List Lexeme) :
    ∃ gap ms, ls = gap ++ ms ∧ (∀ l ∈ gap, l.kind = none) ∧ (∀ l ∈ ms.head?, l.kind ≠ none) ∧
      place (p.advance (textOf gap)) ms = place p ls ∧
      ∀ n, n ≤ (p.advance (textOf ls)).offset → (∀ t ∈ place p ls, n ≤ t.start.offset) →
        n ≤ (p.advance (textOf gap)).offset := by
  induction ls generalizing p with
  | nil => exact ⟨[], [], rfl, by simp, by simp, rfl, fun n hn _ => hn⟩
  | cons l ls ih =>
      cases hkind : l.kind with
      | none =>
          obtain ⟨gap, ms, rfl, hgap, hms, hplace, hle⟩ := ih (p.advance l.text)
          refine ⟨l :: gap, ms, rfl, List.forall_mem_cons.2 ⟨hkind, hgap⟩, hms, ?_, ?_⟩
          · rw [textOf_cons, Position.advance_append, hplace, place_cons_of_none hkind]
          · rw [textOf_cons, textOf_cons, Position.advance_append, Position.advance_append,
              place_cons_of_none hkind]
            exact hle
      | some kind =>
          refine ⟨[], l :: ls, rfl, by simp, by simp [hkind], rfl, fun n _ hle => ?_⟩
          rw [place_cons_of_some hkind] at hle
          exact hle _ List.mem_cons_self

/-! ## Places of tokens -/

/-- A token that stands where it says in a text. -/
structure Token.StandsIn (text : Text) (t : Token) : Prop where
  start_eq : t.start = Position.origin.advance (text.take t.start.offset)
  start_lt_stop : t.start.offset < t.stop
  stop_le : t.stop ≤ text.length

/-- Every token stands where it says, also before a place where no token stands. -/
theorem standsIn_of_lex {text : Text} : ∀ t ∈ (lex text).tokens, t.StandsIn text := by
  obtain ⟨ls, rest, rfl, hls, -, heq⟩ := exists_lexFrom_eq text
  intro t ht
  rw [lex, heq] at ht
  obtain ⟨before, after, hsplit⟩ := List.append_of_mem ht
  obtain ⟨ls₁, l, ls₂, rfl, -, -, ht, -⟩ := exists_of_place_eq hsplit
  obtain ⟨c, cs, hcons⟩ := (hls.areCut.isProper l (by simp)).exists_cons
  have hstart : t.start = Position.origin.advance (textOf ls₁) := congrArg Token.start ht
  have hoffset : t.start.offset = (textOf ls₁).length := by
    rw [hstart, Position.advance_origin_offset]
  have hstop : t.stop = (textOf ls₁).length + l.text.length := by
    rw [congrArg Token.stop ht, ← hoffset, hstart]
    exact Position.advance_offset _ _
  refine ⟨?_, ?_, ?_⟩
  · rw [hoffset, textOf_append, List.append_assoc, List.take_left, hstart]
  · rw [hoffset, hstop, hcons, List.length_cons]
    omega
  · rw [hstop, textOf_append, textOf_cons, List.length_append, List.length_append,
      List.length_append]
    omega

/-- The tokens of lexemes start no earlier than the lexemes. -/
theorem le_start_of_mem_place {p : Position} {ls : List Lexeme} {t : Token}
    (h : t ∈ place p ls) : p.offset ≤ t.start.offset := by
  obtain ⟨before, after, hsplit⟩ := List.append_of_mem h
  obtain ⟨ls₁, ls₂, -, -, -, hstart⟩ := exists_split_before hsplit
  rw [hstart, Position.advance_offset]
  exact Nat.le_add_right _ _

/-- Each token ends before the next starts. -/
theorem place_sorted (p : Position) (ls : List Lexeme) :
    (place p ls).Pairwise fun t u => t.stop ≤ u.start.offset := by
  induction ls generalizing p with
  | nil => exact .nil
  | cons l ls ih =>
      cases hkind : l.kind with
      | none =>
          rw [place_cons_of_none hkind]
          exact ih _
      | some kind =>
          rw [place_cons_of_some hkind]
          exact .cons (fun u hu => le_start_of_mem_place hu) (ih _)

/-! ## Slices -/

/-- What is cut out of a text from the start of a token to the end of a token is cut into the
lexemes that stand there. -/
theorem exists_slice {text : Text} {before us after : List Token} {first last : Token}
    (hrest : (lex text).rest = []) (htokens : (lex text).tokens = before ++ (us ++ after))
    (hfirst : us.head? = some first) (hlast : us.getLast? = some last) :
    ∃ ls, AreCut ls ∧ textOf ls = (text.take last.stop).drop first.start.offset ∧
      place first.start ls = us := by
  obtain ⟨ls, hls, rfl, hplace⟩ := lex_rest_eq_nil_iff.1 hrest
  rw [hplace] at htokens
  -- the text before the first token comes off first, and then the text behind the last
  obtain ⟨us', hcons⟩ := List.head?_eq_some_iff.1 hfirst
  obtain ⟨us'', hus⟩ := List.getLast?_eq_some_iff.1 hlast
  rw [hcons, List.cons_append] at htokens
  obtain ⟨ls₁, ms, rfl, -, hms, hstart⟩ := exists_split_before htokens
  rw [← List.cons_append, ← hcons, hus, List.append_assoc, List.singleton_append, ← hstart] at hms
  obtain ⟨ls₂, ls₃, rfl, hls₂, -, -, hstop⟩ := exists_split_behind hms
  refine ⟨ls₂, hls.of_append_right.of_append_left, ?_, hls₂.trans hus.symm⟩
  have hoffset : first.start.offset = (textOf ls₁).length := by
    rw [hstart, Position.advance_origin_offset]
  have hend : last.stop = (textOf ls₁ ++ textOf ls₂).length := by
    rw [hstop, Position.advance_offset, hoffset, List.length_append]
  rw [hoffset, hend, textOf_append, textOf_append, ← List.append_assoc, List.take_left,
    List.drop_left]

end Spruce
