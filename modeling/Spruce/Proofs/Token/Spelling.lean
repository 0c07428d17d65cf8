import Spruce.Token.Lexer

set_option autoImplicit false

/-!
# Spellings of tokens

A token that was cut from a text and has only one spelling has that spelling, so that its kind
tells its text (`lexFrom_isSpelled`).
-/

namespace Spruce

/-- A symbol that is written as symbols of its kind are. -/
def Token.IsSpelled (t : Token) : Prop := t.kind ∈ Terminal.symbols → t.text = t.kind.spelling

/-- A word is an identifier or a keyword. -/
theorem wordKind_mem (cs : List Char) : wordKind cs ∈ Terminal.identifier :: Terminal.keywords := by
  rw [wordKind]
  cases hfind : Terminal.keywords.find? fun t => t.spelling = cs with
  | none => exact List.mem_cons_self
  | some t => exact List.mem_cons_of_mem _ (List.mem_of_find?_eq_some hfind)

/-- A word is a keyword just when it is spelled like it. -/
theorem wordKind_eq_keyword_iff {k : Terminal} (hk : k ∈ Terminal.keywords) {w : List Char} :
    wordKind w = k ↔ w = k.spelling := by
  constructor
  · intro h
    cases hfind : Terminal.keywords.find? fun t => t.spelling = w with
    | none =>
        rw [wordKind, hfind] at h
        obtain rfl : Terminal.identifier = k := h
        exact absurd hk (by decide)
    | some t =>
        rw [wordKind, hfind] at h
        obtain rfl : t = k := h
        simpa [eq_comm] using List.find?_some hfind
  · rintro rfl
    revert k
    decide

theorem wordKind_eq_identifier_iff {w : List Char} :
    wordKind w = .identifier ↔ ∀ k ∈ Terminal.keywords, w ≠ k.spelling := by
  constructor
  · rintro h k hk hw
    rw [(wordKind_eq_keyword_iff hk).2 hw] at h
    subst h
    exact absurd hk (by decide)
  · intro h
    rcases List.mem_cons.1 (wordKind_mem w) with hident | hk
    · exact hident
    · exact absurd ((wordKind_eq_keyword_iff hk).1 rfl) (h _ hk)

/-- A word is no symbol. -/
theorem wordKind_not_mem_symbols (cs : List Char) : wordKind cs ∉ Terminal.symbols :=
  (by decide : ∀ t ∈ Terminal.identifier :: Terminal.keywords, t ∉ Terminal.symbols) _
    (wordKind_mem cs)

/-- A lexeme of the kind of a symbol is spelled like it. -/
theorem lexeme_text_eq_spelling {cs : List Char} {l : Lexeme} {t : Terminal}
    (h : lexeme cs = some l) (hkind : l.kind = some t) (ht : t ∈ Terminal.symbols) :
    l.text = t.spelling := by
  unfold lexeme at h
  split at h
  · obtain rfl := Option.some.inj h
    obtain rfl := Option.some.inj hkind
    exact absurd ht (wordKind_not_mem_symbols _)
  split at h
  · obtain rfl := Option.some.inj h
    obtain rfl := Option.some.inj hkind
    exact absurd ht (by decide)
  split at h
  · obtain rfl := Option.some.inj h
    obtain rfl := Option.some.inj hkind
    exact absurd ht (by decide)
  split at h
  · obtain rfl := Option.some.inj h
    exact absurd hkind (Option.some_ne_none t).symm
  obtain ⟨t', -, rfl⟩ := Option.map_eq_some_iff.1 h
  obtain rfl := Option.some.inj hkind
  rfl

/-! ## Cutting off one lexeme -/

theorem lexFrom_of_none {cs : List Char} (h : lexeme cs = none) (p : Position) :
    lexFrom p cs = ⟨[], p, cs⟩ := by
  rw [lexFrom]
  split
  · rfl
  · next hsome => exact absurd (h.symm.trans hsome).symm (Option.some_ne_none _)

theorem lexFrom_of_some {cs : List Char} {l : Lexeme} (h : lexeme cs = some l) (p : Position) :
    lexFrom p cs =
      match l.kind with
      | none => lexFrom (p.advance l.text) (cs.drop l.text.length)
      | some kind =>
          { lexFrom (p.advance l.text) (cs.drop l.text.length) with
            tokens := ⟨kind, l.text, p, (p.advance l.text).offset⟩ ::
              (lexFrom (p.advance l.text) (cs.drop l.text.length)).tokens } := by
  rw [lexFrom]
  split
  · next hnone => exact absurd (h.symm.trans hnone) (Option.some_ne_none _)
  · next l' hsome =>
      obtain rfl : l = l' := Option.some.inj (h.symm.trans hsome)
      rfl

/-- The symbols of a text are spelled as symbols of their kinds are. -/
theorem lexFrom_isSpelled (p : Position) (cs : List Char) :
    ∀ t ∈ (lexFrom p cs).tokens, t.IsSpelled := by
  cases h : lexeme cs with
  | none =>
      rw [lexFrom_of_none h]
      exact fun t ht => absurd ht List.not_mem_nil
  | some l =>
      have hlater := lexFrom_isSpelled (p.advance l.text) (cs.drop l.text.length)
      rw [lexFrom_of_some h]
      cases hkind : l.kind with
      | none => exact hlater
      | some kind =>
          intro t ht
          rcases List.mem_cons.1 ht with rfl | ht
          · exact lexeme_text_eq_spelling h hkind
          · exact hlater t ht
termination_by cs.length
decreasing_by exact length_drop_lexeme h

end Spruce
