import Spruce.Proofs.Meaning.Alike
import Spruce.Proofs.Reference.Failures

set_option autoImplicit false

/-!
# Layout does not matter

Two texts that are cut to their ends into tokens that are the same but for their places have the
same outcome (`parse_sameOutcome`): equal trees, or failures of one class, where the same is
expected, at the same token or both at the end. Blanks between tokens and other newline tokens keep
the outcome (`parse_layout`); only between a plus or minus and a number that it touches may no blank
be put, unless the text is accepted and the sign is read as a binary operator.
-/

namespace Spruce

variable {start : Start} {filename filename' : Option String} {text text' : Text}

/-! ## Outcomes that are the same -/

/-- Texts that are cut to their ends into tokens that are the same but for their places. -/
structure Alike (text text' : Text) : Prop where
  rest_eq_nil : (lex text).rest = []
  rest_eq_nil' : (lex text').rest = []
  bare_eq : bare (lex text).tokens = bare (lex text').tokens

/-- Outcomes that are the same but for places. -/
inductive SameOutcome (text text' : Text) :
    Except ParseFailure Node → Except ParseFailure Node → Prop where
  | tree {n n' : Node} (h : n.equal n' = true) : SameOutcome text text' (.ok n) (.ok n')
  /-- Failures at tokens with the same index. -/
  | atToken {e e' : ParseFailure} {i : Nat} {t t' : Token}
      (hclass : e.cause.failureClass = e'.cause.failureClass)
      (hexpected : e.expected = e'.expected) (ht : (lex text).tokens[i]? = some t)
      (ht' : (lex text').tokens[i]? = some t') (hposition : e.position = t.start)
      (hposition' : e'.position = t'.start) : SameOutcome text text' (.error e) (.error e')
  /-- Failures at the ends of the texts. -/
  | atEnd {e e' : ParseFailure} (hclass : e.cause.failureClass = e'.cause.failureClass)
      (hexpected : e.expected = e'.expected) (hposition : e.position.offset = text.length)
      (hposition' : e'.position.offset = text'.length) :
      SameOutcome text text' (.error e) (.error e')

/-- What is awaited after some tokens depends on nothing but their kinds. -/
theorem awaited_eq_of_kinds {ts us : List Token} (h : kinds ts = kinds us) :
    ((Readings.initial start.goal).after ts).awaited =
      ((Readings.initial start.goal).after us).awaited := by
  have hmem : ∀ t, t ∈ ((Readings.initial start.goal).after ts).awaited ↔
      t ∈ ((Readings.initial start.goal).after us).awaited := by
    intro t
    rw [Readings.mem_awaited_after_iff, Readings.mem_awaited_after_iff, ← Start.viable_concat_iff,
      ← Start.viable_concat_iff, h]
  rw [Readings.awaited, Readings.awaited]
  refine List.filter_congr fun t ht => ?_
  have hiff := hmem t
  rw [Readings.awaited, Readings.awaited, List.mem_filter, List.mem_filter, and_congr_right_iff]
    at hiff
  exact Bool.eq_iff_iff.2 (hiff ht)

/-- Tokens of the same kinds as those on either side of one, apart in the same way. -/
theorem exists_of_kinds_eq {ts before after : List Token} {t : Token}
    (h : kinds ts = kinds (before ++ t :: after)) :
    ∃ before' t' after', ts = before' ++ t' :: after' ∧ kinds before' = kinds before ∧
      t'.kind = t.kind := by
  rw [kinds_append] at h
  obtain ⟨before', later, rfl, hbefore, hlater⟩ := List.map_eq_append_iff.1 h
  obtain ⟨t', after', rfl, ht, -⟩ := List.map_eq_cons_iff.1 hlater
  exact ⟨before', t', after', rfl, hbefore, ht⟩

/-- Sentences whose tokens are the same but for their places have equal trees or fail at the same
sign. -/
theorem parse_sameOutcome_of_sentence (h : Alike text text')
    (hsentence : start.Sentence (kinds (lex text).tokens)) :
    SameOutcome text text' (parse start filename text).outcome
      (parse start filename' text').outcome := by
  obtain ⟨hrest, hrest', hbare⟩ := h
  have hlabels := labels_eq_of_bare hbare
  rw [kinds_eq_of_labels hlabels] at hsentence
  obtain ⟨d', htokens'⟩ := Start.sentence_iff.1 hsentence
  obtain ⟨d, htokens, hroles, hsame⟩ := d'.exists_alike filename'
    filename (hlabels.trans (congrArg labels htokens'.symm))
  have hderive : derive start filename text = .ok d := derive_eq_ok_iff.2 ⟨hrest, htokens⟩
  have hderive' : derive start filename' text' = .ok d' := derive_eq_ok_iff.2 ⟨hrest', htokens'⟩
  have hsigns : (start.phrase d).detachedSigns =
      detachedAmong (Start.roles d') (lex text).tokens := by
    rw [Start.detachedSigns_phrase, Start.roles, hroles, htokens]
    rfl
  have hsigns' : (start.phrase d').detachedSigns =
      detachedAmong (Start.roles d') (lex text').tokens := by
    rw [Start.detachedSigns_phrase, htokens']
  rcases detachedAmong_alike hbare (Start.roles d') with
    ⟨hnone, hnone'⟩ | ⟨i, t, t', ht, ht', hget, hget'⟩
  · rw [parse_of_no_detachedSigns hderive (hsigns.trans hnone),
      parse_of_no_detachedSigns hderive' (hsigns'.trans hnone')]
    refine .tree ?_
    cases start with
    | program => exact hsame
    | expression => exact hsame
  · obtain ⟨later, hlater⟩ := List.head?_eq_some_iff.1 ht
    obtain ⟨later', hlater'⟩ := List.head?_eq_some_iff.1 ht'
    rw [parse_of_detachedSigns hderive (hsigns.trans hlater),
      parse_of_detachedSigns hderive' (hsigns'.trans hlater')]
    exact .atToken rfl rfl hget hget' rfl rfl

/-- Texts whose tokens are the same but for their places have the same outcome. -/
theorem parse_sameOutcome (h : Alike text text') :
    SameOutcome text text' (parse start filename text).outcome
      (parse start filename' text').outcome := by
  obtain ⟨hrest, hrest', hbare⟩ := id h
  have hkinds := kinds_eq_of_labels (labels_eq_of_bare hbare)
  by_cases hviable : start.Viable (kinds (lex text).tokens)
  · by_cases hsentence : start.Sentence (kinds (lex text).tokens)
    · exact parse_sameOutcome_of_sentence h hsentence
    · have hviable' : start.Viable (kinds (lex text').tokens) := hkinds ▸ hviable
      have hsentence' : ¬start.Sentence (kinds (lex text').tokens) := hkinds ▸ hsentence
      rw [parse_of_derive_error (derive_of_not_sentence hviable hrest hsentence),
        parse_of_derive_error (derive_of_not_sentence hviable' hrest' hsentence')]
      exact .atEnd rfl (awaited_eq_of_kinds hkinds) (Position.advance_origin_offset text)
        (Position.advance_origin_offset text')
  -- no sentence goes on with some token, nor with the one in its place
  · obtain ⟨before, t, after, htokens, hbefore, hstop⟩ :=
      exists_first_not_viable (show start.Viable (kinds []) from Start.viable_nil) hviable
    replace htokens : (lex text).tokens = before ++ t :: after := htokens
    obtain ⟨before', t', after', htokens', hkinds', hkind⟩ :=
      exists_of_kinds_eq (hkinds.symm.trans (congrArg kinds htokens))
    have hstop' : ¬start.Viable (kinds (before' ++ [t'])) := by
      have heq : kinds (before' ++ [t']) = kinds (before ++ [t]) := by
        rw [kinds_append, kinds_append, hkinds']
        exact congrArg (fun k => kinds before ++ [k]) hkind
      rwa [heq]
    rw [parse_of_derive_error (derive_of_not_viable htokens hbefore hstop),
      parse_of_derive_error (derive_of_not_viable htokens' (hkinds' ▸ hbefore) hstop')]
    have hlength : before'.length = before.length := by
      simpa [kinds] using congrArg List.length hkinds'
    refine .atToken (i := before.length) rfl (awaited_eq_of_kinds hkinds'.symm) ?_ ?_ rfl rfl
    · rw [htokens, List.getElem?_append_right (Nat.le_refl _), Nat.sub_self]
      rfl
    · rw [htokens', ← hlength, List.getElem?_append_right (Nat.le_refl _), Nat.sub_self]
      rfl

/-! ## Changes of layout -/

section

variable {a b w : Text} {before after : List Token}

/-- Blanks between two tokens, or at either end of a text, change nothing unless they come between
a plus or minus and a number that it touches. -/
theorem alike_respace (hrest : (lex (a ++ b)).rest = [])
    (htokens : (lex (a ++ b)).tokens = before ++ after) (hbefore : ∀ t ∈ before, t.stop ≤ a.length)
    (hafter : ∀ t ∈ after, a.length ≤ t.start.offset) (hw : w.IsBlanks)
    (hapart : Apart before after) : Alike (a ++ b) (a ++ (w ++ b)) := by
  obtain ⟨hrest', before', after', htokens', -, -, hbare⟩ :=
    lex_respace hrest htokens hbefore hafter hw
  exact ⟨hrest, hrest', by rw [htokens, htokens', hbare hapart]⟩

theorem alike_blanks_before (hrest : (lex b).rest = []) (hw : w.IsBlanks) : Alike b (w ++ b) :=
  alike_respace (a := []) hrest (List.nil_append _).symm (by simp) (fun _ _ => Nat.zero_le _) hw
    (by simp [Apart])

theorem alike_blanks_behind (hrest : (lex a).rest = []) (hw : w.IsBlanks) :
    Alike a (a ++ w) := by
  have htokens : (lex (a ++ [])).tokens = (lex a).tokens ++ [] := by
    rw [List.append_nil, List.append_nil]
  have h : Alike (a ++ []) (a ++ (w ++ [])) := by
    refine alike_respace ?_ htokens (fun t ht => ?_) (by simp) hw (fun t _ => rfl)
    · rwa [List.append_nil]
    · exact (standsIn_of_lex t ht).stop_le
  rwa [List.append_nil, List.append_nil] at h

/-- Any line breaks in the place of a newline token change nothing. -/
theorem alike_replace_newline {t : Token} (hrest : (lex text).rest = [])
    (htokens : (lex text).tokens = before ++ t :: after) (ht : t.kind = .newline) {r : Text}
    (hr : r.IsLineRun) : Alike text (text.take t.start.offset ++ (r ++ text.drop t.stop)) := by
  obtain ⟨hrest', hbare⟩ := lex_replace_newline hrest htokens ht hr
  exact ⟨hrest, hrest', hbare.symm⟩

theorem length_eq_of_bare {ts us : List Token} (h : bare ts = bare us) :
    ts.length = us.length := by
  have hlength : ∀ ts, (bare ts).length = ts.length := by
    intro ts
    induction ts with
    | nil => rfl
    | cons t ts ih => exact congrArg Nat.succ ih
  rw [← hlength, ← hlength, h]

/-- In an accepted text blanks may also come behind a binary operator, whatever it touches. -/
theorem parse_respace_operator {t : Token} {n : Node}
    (haccepted : (parse start filename (a ++ b)).outcome = .ok n)
    (htokens : (lex (a ++ b)).tokens = before ++ t :: after)
    (hbefore : ∀ u ∈ before ++ [t], u.stop ≤ a.length)
    (hafter : ∀ u ∈ after, a.length ≤ u.start.offset) (hw : w.IsBlanks)
    (hoperator : ∀ d, derive start filename (a ++ b) = .ok d →
      (Start.roles d)[before.length]? = some .operator) :
    ∃ n', (parse start filename' (a ++ (w ++ b))).outcome = .ok n' ∧ n'.equal n = true := by
  obtain ⟨hrest, d, hd, htight, rfl⟩ := parse_eq_ok_iff.1 haccepted
  rw [List.append_cons] at htokens
  obtain ⟨hrest', before', after', htokens', hbare, hbare', -⟩ :=
    lex_respace hrest htokens hbefore hafter hw
  have hrole := hoperator d (derive_eq_ok_iff.2 ⟨hrest, hd⟩)
  rw [Start.detachedSigns_phrase, hd, htokens] at htight
  -- the roles of the tokens up to the operator, and those of the others
  obtain ⟨roles, roles', hroles, hlength, -⟩ := Start.exists_roles_append d (hd.trans htokens)
  have hlast : ∀ role ∈ roles.getLast?, role ≠ .sign := by
    intro role hmem
    rw [List.length_append, List.length_singleton] at hlength
    rw [hroles, List.getElem?_append_left (by omega)] at hrole
    rw [Option.mem_def, List.getLast?_eq_getElem?, hlength, Nat.add_sub_cancel, hrole] at hmem
    obtain rfl := Option.some.inj hmem
    decide
  rw [hroles, detachedAmong_append hlength hlast, List.append_eq_nil_iff] at htight
  have hlabels : labels (lex (a ++ (w ++ b))).tokens = labels d.tokens := by
    rw [htokens', hd, htokens, labels_append, labels_append, labels_eq_of_bare hbare,
      labels_eq_of_bare hbare']
  refine parse_of_labels d hrest' hlabels ?_
  have hlength' : roles.length = before'.length := hlength.trans (length_eq_of_bare hbare.symm)
  rw [htokens', hroles, detachedAmong_append hlength' hlast,
    detachedAmong_eq_nil_of_bare hbare.symm htight.1,
    detachedAmong_eq_nil_of_bare hbare'.symm htight.2]
  rfl

end

/-- Layout does not matter. Texts that are cut to their ends into tokens of the same kinds, with the
same texts but for newlines, in which the same signs touch the numbers after them, have the same
outcome. Blanks between two tokens leave the tokens as they are in this sense unless they part a
plus or minus from a number, as do blanks at either end and any line breaks in the place of a
newline token. Behind a sign that is read as a binary operator blanks leave an accepted text
accepted, with an equal tree. -/
theorem parse_layout (start : Start) (filename filename' : Option String) :
    (∀ text text', Alike text text' →
      SameOutcome text text' (parse start filename text).outcome
        (parse start filename' text').outcome) ∧
    (∀ a b w before after, (lex (a ++ b)).rest = [] →
      (lex (a ++ b)).tokens = before ++ after → (∀ t ∈ before, t.stop ≤ a.length) →
        (∀ t ∈ after, a.length ≤ t.start.offset) → Text.IsBlanks w → Apart before after →
          Alike (a ++ b) (a ++ (w ++ b))) ∧
    (∀ text w, (lex text).rest = [] → Text.IsBlanks w →
      Alike text (w ++ text) ∧ Alike text (text ++ w)) ∧
    (∀ text before t after r, (lex text).rest = [] → (lex text).tokens = before ++ t :: after →
      t.kind = .newline → Text.IsLineRun r →
        Alike text (text.take t.start.offset ++ (r ++ text.drop t.stop))) ∧
    (∀ a b w before t after n, (parse start filename (a ++ b)).outcome = .ok n →
      (lex (a ++ b)).tokens = before ++ t :: after → (∀ u ∈ before ++ [t], u.stop ≤ a.length) →
        (∀ u ∈ after, a.length ≤ u.start.offset) → Text.IsBlanks w →
          (∀ d, derive start filename (a ++ b) = .ok d →
            (Start.roles d)[before.length]? = some .operator) →
              ∃ n', (parse start filename' (a ++ (w ++ b))).outcome = .ok n' ∧
                n'.equal n = true) := by
  refine ⟨fun _ _ h => parse_sameOutcome h, ?_, ?_, ?_, ?_⟩
  · intro a b w before after hrest htokens hbefore hafter hw hapart
    exact alike_respace hrest htokens hbefore hafter hw hapart
  · intro text w hrest hw
    exact ⟨alike_blanks_before hrest hw, alike_blanks_behind hrest hw⟩
  · intro text before t after r hrest htokens ht hr
    exact alike_replace_newline hrest htokens ht hr
  · intro a b w before t after n haccepted htokens hbefore hafter hw hoperator
    exact parse_respace_operator haccepted htokens hbefore hafter hw hoperator

/-- The lexemes of `1-2`. -/
def differenceLexemes : List Lexeme :=
  [⟨some .number, ['1']⟩, ⟨some .minus, ['-']⟩, ⟨some .number, ['2']⟩]

/-- The derivation of `1-2` as an expression. -/
def differenceDerivation : Derivation Start.expression.goal :=
  .node .loneExpression (.cons (.node .noNewline .nil) (.cons
    (.node .expression (.cons (.node .chain (.cons
      (.node .numberTerm (.cons (.node .unsignedNumber
        (.cons (.token .number (.at .number ['1'] .origin) rfl) .nil)) .nil)) (.cons
      (.node .nextTerms (.cons (.node .subtractOperator
        (.cons (.token .minus (.at .minus ['-'] ⟨1, 1, 2⟩) rfl) .nil)) (.cons
      (.node .chain (.cons (.node .numberTerm (.cons (.node .unsignedNumber
        (.cons (.token .number (.at .number ['2'] ⟨2, 1, 3⟩) rfl) .nil)) .nil)) (.cons
          (.node .lastTerm .nil) .nil))) .nil))) .nil))) .nil))
    (.cons (.node .noNewline .nil) .nil)))

/-- A difference may be written with a blank on either side of the minus. -/
theorem parse_layout_difference :
    SameOutcome ['1', '-', '2'] ['1', ' ', '-', '2']
        (parse .expression none ['1', '-', '2']).outcome
        (parse .expression none ['1', ' ', '-', '2']).outcome ∧
      ∃ n', (parse .expression none ['1', '-', ' ', '2']).outcome = .ok n' ∧
        n'.equal (differenceDerivation.understand none).meaning = true := by
  have hcut : AreCut differenceLexemes := .cons rfl (.cons rfl (.cons rfl .nil))
  obtain ⟨hrest, htokens⟩ := lex_textOf hcut
  have hd : differenceDerivation.tokens = (lex (textOf differenceLexemes)).tokens :=
    htokens.symm
  have haccepted : (parse .expression none (textOf differenceLexemes)).outcome =
      .ok (differenceDerivation.understand none).meaning :=
    parse_eq_ok_iff.2 ⟨hrest, differenceDerivation, hd, rfl, rfl⟩
  obtain ⟨halike, hblanks, -, -, hoperator⟩ := parse_layout .expression none none
  constructor
  · refine halike _ _ (hblanks ['1'] ['-', '2'] [' '] [_] [_, _] hrest htokens ?_ ?_ ?_ ?_)
    · decide
    · decide
    · exact List.forall_mem_singleton.2 rfl
    · intro t ht
      obtain rfl := Option.some.inj ht
      rfl
  · refine hoperator ['1', '-'] ['2'] [' '] [_] _ [_] _ haccepted htokens ?_ ?_ ?_ ?_
    · decide
    · decide
    · exact List.forall_mem_singleton.2 rfl
    · intro d hderive
      have htokens' : d.tokens = differenceDerivation.tokens :=
        (derive_eq_ok_iff.1 hderive).2.trans hd.symm
      rw [Start.derivation_eq_of_tokens htokens']
      rfl

end Spruce
