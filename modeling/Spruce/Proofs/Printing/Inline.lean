import Spruce.Proofs.Printing.Lines
import Spruce.Proofs.RoundTrip.Expressions

set_option autoImplicit false

/-!
# Texts that are printed within a line

Names, numbers and operators are made of characters that can be seen and are no braces, so that they
stand within a line (`Text.IsInline`). So do chains of terms and lists in parentheses, if what they
are made of does.
-/

namespace Spruce

/-! ## Names, operators and numbers -/

/-- A character of names, numbers and operators. -/
def isInk (c : Char) : Bool := isPlain c && isVisible c

theorem Text.IsInline.of_isInk {cs : Text} (hne : cs ≠ []) (h : ∀ c ∈ cs, isInk c = true) :
    cs.IsInline :=
  .of_forall hne fun c hc => Bool.and_eq_true_iff.1 (h c hc)

/-- A fixed text of names, numbers and operators, which may be checked by evaluation. -/
theorem Text.IsInline.of_all_isInk {cs : Text} (hne : cs ≠ []) (h : cs.all isInk = true) :
    cs.IsInline := .of_isInk hne (List.all_eq_true.1 h)

/-- What lies between the blank and the opening brace can be seen. -/
theorem isInk_of_range {c : Char} (hlow : 0x20 < c.toNat) (hhigh : c.toNat < 0x7b) :
    isInk c = true := by
  have hother : ∀ d : Char, ¬(0x20 < d.toNat ∧ d.toNat < 0x7b) → c ≠ d := by
    rintro d hd rfl
    exact hd ⟨hlow, hhigh⟩
  have hspace : isWhiteSpace c = false := by
    simp only [isWhiteSpace, whiteSpaceRanges, List.any_cons, List.any_nil, Bool.or_eq_false_iff,
      Bool.and_eq_false_iff, decide_eq_false_iff_not, and_true]
    omega
  have hplain : isPlain c = true := by
    simp [isPlain, hother '\n' (by decide), hother '{' (by decide), hother '}' (by decide)]
  have hvisible : isVisible c = true := by
    simp [isVisible, hspace, hother '}' (by decide)]
  rw [isInk, hplain, hvisible]
  rfl

theorem isInk_of_isAlphanumeric {c : Char} (h : isAlphanumeric c = true) : isInk c = true := by
  simp only [isAlphanumeric, isLetter, isDigit, Bool.or_eq_true, Bool.and_eq_true,
    decide_eq_true_eq, Char.le_def, UInt32.le_iff_toNat_le] at h
  rcases h with (h | h) | h
  · change 65 ≤ c.toNat ∧ c.toNat ≤ 90 at h
    exact isInk_of_range (by omega) (by omega)
  · change 97 ≤ c.toNat ∧ c.toNat ≤ 122 at h
    exact isInk_of_range (by omega) (by omega)
  · change 48 ≤ c.toNat ∧ c.toNat ≤ 57 at h
    exact isInk_of_range (by omega) (by omega)

theorem isInk_of_isDigit {c : Char} (h : isDigit c = true) : isInk c = true :=
  isInk_of_isAlphanumeric (by simp [isAlphanumeric, h])

theorem IsName.isInline {s : String} (h : IsName s) : Text.IsInline s.toList := by
  rw [IsName] at h
  cases hs : s.toList with
  | nil =>
      rw [hs] at h
      exact absurd h Bool.false_ne_true
  | cons c cs =>
      rw [hs] at h
      obtain ⟨hletter, hlater⟩ := Bool.and_eq_true_iff.1 h
      refine .of_isInk (List.cons_ne_nil c cs) (List.forall_mem_cons.2 ⟨?_, fun d hd => ?_⟩)
      · exact isInk_of_isAlphanumeric (by simp [isAlphanumeric, hletter])
      · exact isInk_of_isAlphanumeric (List.all_eq_true.1 hlater d hd)

theorem Operator.isInline_sign (o : Operator) : Text.IsInline o.sign.toList := by
  cases o <;> exact .of_all_isInk (by decide) (by decide)

theorem isInk_of_mem_markedPiece {mark : Char} {piece : Option Text} (hmark : isInk mark = true)
    (h : ∀ t ∈ piece, ∀ c ∈ t, isInk c = true) : ∀ c ∈ markedPiece mark piece, isInk c = true := by
  cases piece with
  | none => exact fun c hc => absurd hc List.not_mem_nil
  | some t => exact List.forall_mem_cons.2 ⟨hmark, h t rfl⟩

theorem isInk_of_mem_exponent {es : Text} (h : es.IsExponent) : ∀ c ∈ es, isInk c = true := by
  cases h with
  | unsigned _ hds => exact fun c hc => isInk_of_isDigit (hds c hc)
  | @signed c ds hsign _ hds =>
      refine List.forall_mem_cons.2 ⟨?_, fun d hd => isInk_of_isDigit (hds d hd)⟩
      rcases (by simpa [isSign] using hsign : c = '+' ∨ c = '-') with rfl | rfl <;> decide

/-- A number, with a sign or without one. -/
theorem isInline_number {sign integer : String} {fraction exponent : Option String}
    (hsign : sign = "" ∨ sign = "+" ∨ sign = "-")
    (h : IsNumeral integer.toList (fraction.map String.toList) (exponent.map String.toList)) :
    Text.IsInline (numberText (.text sign) (.text integer) (.optionalText fraction)
      (.optionalText exponent)) := by
  rw [numberText_eq]
  refine .of_isInk ?_ (List.forall_mem_append.2 ⟨?_, List.forall_mem_append.2 ⟨?_,
    List.forall_mem_append.2 ⟨?_, ?_⟩⟩⟩)
  · exact List.append_ne_nil_of_right_ne_nil _ (numeralText_begins h).ne_nil
  · rcases hsign with rfl | rfl | rfl <;> exact List.all_eq_true.1 (by decide)
  · exact fun c hc => isInk_of_isDigit (h.integer_isDigits c hc)
  · exact isInk_of_mem_markedPiece (by decide) fun t ht c hc =>
      isInk_of_isDigit (h.fraction_isDigits t ht c hc)
  · exact isInk_of_mem_markedPiece (by decide) fun t ht =>
      isInk_of_mem_exponent (h.exponent_isExponent t ht)

/-! ## Lists and chains -/

theorem Text.isPlain_commaSeparated {ts : List Text} (h : ∀ t ∈ ts, t.IsPlain) :
    (commaSeparated ts).IsPlain := by
  induction ts with
  | nil => exact fun c hc => absurd hc List.not_mem_nil
  | cons t ts ih =>
      obtain ⟨hfirst, hlater⟩ := List.forall_mem_cons.1 h
      cases ts with
      | nil =>
          rw [commaSeparated_single, List.append_nil]
          exact hfirst
      | cons u us =>
          rw [commaSeparated_cons_cons]
          exact Text.isPlain_append.2 ⟨hfirst, Text.isPlain_cons.2 ⟨by decide,
            Text.isPlain_cons.2 ⟨by decide, ih hlater⟩⟩⟩

/-- A list in parentheses, even if it is empty. -/
theorem Text.isInline_parenthesised {ts : List Text} (h : ∀ t ∈ ts, t.IsInline) :
    Text.IsInline (parenthesised ts) := by
  have hplain : (commaSeparated ts).IsPlain :=
    Text.isPlain_commaSeparated fun t ht => (h t ht).plain
  have hopening : Text.IsInline ['('] := .of_all_isInk (List.cons_ne_nil _ _) (by decide)
  exact hopening.around _ hplain (.of_all_isInk (List.cons_ne_nil _ _) (by decide))

/-- A name, or another text, with a list in parentheses after it if that is not empty. -/
theorem Text.IsInline.optionalParens {cs : Text} {ts : List Text} (hcs : cs.IsInline)
    (h : ∀ t ∈ ts, t.IsInline) : Text.IsInline (cs ++ Spruce.optionalParens ts) := by
  rw [Spruce.optionalParens]
  split
  · rwa [List.append_nil]
  · exact hcs.append (Text.isInline_parenthesised h)

theorem isInline_names {names : List String} (h : ∀ s ∈ names, IsName s) :
    ∀ t ∈ names.map String.toList, Text.IsInline t := by
  intro t ht
  obtain ⟨s, hs, rfl⟩ := List.mem_map.1 ht
  exact (h s hs).isInline

theorem Text.IsInline.chain {os : List Operator} {t : Text} {ts : List Text} (ht : t.IsInline)
    (h : ∀ t ∈ ts, t.IsInline) : Text.IsInline (chainText os t ts) := by
  have hblank : Text.IsPlain [' '] := by decide
  induction os generalizing t ts with
  | nil =>
      rw [chainText_nil, List.append_nil]
      exact ht
  | cons o os ih =>
      cases ts with
      | nil =>
          have hsame : chainText (o :: os) t [] = t := by simp [chainText, operandTexts]
          rwa [hsame]
      | cons u us =>
          obtain ⟨hfirst, hlater⟩ := List.forall_mem_cons.1 h
          rw [chainText_cons]
          exact ht.around _ hblank (o.isInline_sign.around _ hblank (ih hfirst hlater))

/-- The left-hand side of an assignment. -/
theorem isInline_assignmentText (kind : TargetKind) {name : Text} (h : name.IsInline) :
    Text.IsInline (assignmentText kind name) := by
  have hink : ∀ cs : Text, cs ≠ [] → cs.all isInk = true → cs.IsInline :=
    fun cs hne hcs => .of_all_isInk hne hcs
  cases kind with
  | bind => exact h.around [' '] (by decide) (hink ['='] (by decide) (by decide))
  | mutableBind =>
      have hkeyword : Text.IsInline "mut".toList := hink _ (by decide) (by decide)
      have hname : Text.IsInline ("mut".toList ++ ([' '] ++ name)) :=
        hkeyword.around [' '] (by decide) h
      exact hname.around [' '] (by decide) (hink ['='] (by decide) (by decide))
  | update => exact h.append (hink [':'] (by decide) (by decide))

end Spruce
