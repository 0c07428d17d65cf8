import Spruce.Proofs.Meaning.Joined

set_option autoImplicit false

/-!
# Lone expressions

A text that is an expression may have a newline on either side of it, and nothing else. No
expression begins or ends with a newline, so that the newlines come off on both sides
(`Derivation.dropWhile_loneExpression`). Nothing can follow the newline behind an expression, and
before there is one it always can (`Derivation.exists_longer_loneExpression_iff`). Without newlines
only the expression is left (`Derivation.eq_asText`).
-/

namespace Spruce

/-! ## Expressions with newlines around them -/

/-- An expression, perhaps with a newline on either side. -/
@[match_pattern] def Derivation.loneExpression (before : Derivation (.sub .optionalNewline))
    (e : Derivation (.sub .expression)) (after : Derivation (.sub .optionalNewline)) :
    Derivation (.sub .loneExpression) :=
  .node .loneExpression (.cons before (.cons e (.cons after .nil)))

/-- No newline where one may be left out. -/
@[match_pattern] def Derivation.noNewline : Derivation (.sub .optionalNewline) :=
  .node .noNewline .nil

/-- A newline where it may be left out. -/
@[match_pattern] def Derivation.someNewline (t : Token) (h : t.kind = .newline) :
    Derivation (.sub .optionalNewline) :=
  .node .newline (.cons (.token _ t h) .nil)

/-- The token of a line feed that begins a text. -/
def Token.lineFeed : Token := .at .newline ['\n'] .origin

theorem Token.lineFeed_kind : lineFeed.kind = .newline := rfl

section

variable {before after : Derivation (.sub .optionalNewline)} {e : Derivation (.sub .expression)}
  {t : Token} {h : t.kind = .newline}

@[simp] theorem Derivation.loneExpression_tokens :
    (loneExpression before e after).tokens = before.tokens ++ (e.tokens ++ after.tokens) := by
  simp [Derivation.tokens, Derivations.tokens]

@[simp] theorem Derivation.noNewline_tokens : noNewline.tokens = [] := rfl

@[simp] theorem Derivation.someNewline_tokens : (someNewline t h).tokens = [t] := rfl

/-- The tokens of an expression end with no newline. -/
theorem Derivation.endsVisibly_expression (e : Derivation (.sub .expression)) :
    EndsVisibly e.tokens :=
  endsVisibly_of_isInline (e.tokens_ne_nil rfl) (e.isInline_tokens rfl)

theorem not_isNewline_of_isInline {t : Token} (h : t.isInline = true) : t.isNewline = false := by
  rw [Token.isNewline, decide_eq_false_iff_not]
  intro hkind
  rw [Token.isInline, hkind] at h
  exact Bool.false_ne_true h

/-- They begin with none. -/
theorem Derivation.not_isNewline_of_expression (e : Derivation (.sub .expression))
    (later : List Token) : ∀ t ∈ (e.tokens ++ later).head?, t.isNewline = false := by
  obtain ⟨t, ts, hcons⟩ := List.exists_cons_of_ne_nil (e.tokens_ne_nil rfl)
  intro u hu
  rw [hcons] at hu
  obtain rfl := Option.some.inj hu
  exact not_isNewline_of_isInline (e.isInline_tokens rfl t (hcons ▸ List.mem_cons_self))

/-- The newline before an expression comes off. -/
theorem Derivation.dropWhile_loneExpression (later : List Token) :
    ((loneExpression before e after).tokens ++ later).dropWhile Token.isNewline =
      e.tokens ++ (after.tokens ++ later) := by
  rw [loneExpression_tokens, List.append_assoc, List.append_assoc]
  exact dropWhile_append before.isNewline_of_optionalNewline
    (e.not_isNewline_of_expression (after.tokens ++ later))

/-- No inline token comes where a newline does. -/
theorem interrupted_of_newline {t : Token} (h : t.kind = .newline) (later : List Token) :
    Interrupted (t :: later) := by
  intro kind hkind
  obtain rfl : t.kind = kind := Option.some.inj hkind
  rw [h]
  rfl

theorem Derivation.interrupted_optionalNewline (d : Derivation (.sub .optionalNewline)) :
    Interrupted d.tokens := by
  match d with
  | noNewline => exact fun t ht => absurd ht (Option.not_mem_none t)
  | someNewline t h => exact interrupted_of_newline h []

end

/-! ## What can follow -/

/-- Nothing follows the newline behind an expression. -/
theorem Derivation.loneExpression_ends {before : Derivation (.sub .optionalNewline)}
    {e : Derivation (.sub .expression)} {newline : Token} {h : newline.kind = .newline}
    {d : Derivation (.sub .loneExpression)} {later : List Token}
    (hd : d.tokens = (loneExpression before e (someNewline newline h)).tokens ++ later) :
    later = [] := by
  match d with
  | loneExpression before' e' after' =>
      have hdrop := congrArg (List.dropWhile Token.isNewline) hd
      rw [← List.append_nil (loneExpression before' e' after').tokens, dropWhile_loneExpression,
        dropWhile_loneExpression, List.append_nil] at hdrop
      -- both expressions end where the first newline behind them comes
      obtain ⟨-, hafter⟩ := inline_append_inj (e'.isInline_tokens rfl) (e.isInline_tokens rfl)
        after'.interrupted_optionalNewline (interrupted_of_newline h later) hdrop
      match after' with
      | noNewline => exact absurd hafter.symm (List.cons_ne_nil newline later)
      | someNewline newline' h' => exact (List.cons.inj hafter).2.symm

/-- The tokens of a lone expression can go on unless the last of them is a newline. -/
theorem Derivation.exists_longer_loneExpression_iff (d : Derivation (.sub .loneExpression)) :
    (∃ (t : Token) (d' : Derivation (.sub .loneExpression)), d.tokens ++ [t] <+: d'.tokens) ↔
      ∀ t ∈ d.tokens.getLast?, t.isNewline = false := by
  match d with
  | loneExpression before e noNewline =>
      rw [loneExpression_tokens, noNewline_tokens, List.append_nil]
      refine iff_of_true ?_ (e.endsVisibly_expression.prepend before.tokens).not_isNewline
      refine ⟨.lineFeed, loneExpression before e (someNewline _ Token.lineFeed_kind), [], ?_⟩
      rw [loneExpression_tokens, someNewline_tokens, List.append_nil, List.append_assoc]
  | loneExpression before e (someNewline newline h) =>
      refine iff_of_false ?_ fun hlast => ?_
      · rintro ⟨t, d', later, hd'⟩
        rw [List.append_assoc] at hd'
        exact List.cons_ne_nil t later (loneExpression_ends hd'.symm)
      · have hmem : newline ∈
            (loneExpression before e (someNewline newline h)).tokens.getLast? := by
          rw [loneExpression_tokens, someNewline_tokens, ← List.append_assoc, List.getLast?_concat]
          rfl
        exact of_decide_eq_false (hlast newline hmem) h

/-! ## Expressions alone -/

/-- A lone expression without newlines is the expression. -/
theorem Derivation.eq_asText (d : Derivation (.sub .loneExpression))
    (h : Terminal.newline ∉ kinds d.tokens) : ∃ e, d = asText e := by
  match d with
  | loneExpression noNewline e noNewline => exact ⟨e, rfl⟩
  | loneExpression (someNewline t ht) e after =>
      exact absurd (List.mem_map.2 ⟨t, by simp, ht⟩) h
  | loneExpression noNewline e (someNewline t ht) =>
      exact absurd (List.mem_map.2 ⟨t, by simp, ht⟩) h

end Spruce
