import Spruce.Proofs.Reference.Signs
import Spruce.Proofs.Token.Cutting

set_option autoImplicit false

/-!
# Texts that are read as they are meant

A text is read as a symbol with a meaning if, wherever it stands and whatever allowed text comes
after it, it is cut into the tokens of a derivation that has the meaning and no detached sign
(`Reads`). Readings of the parts of a rule make a reading of its nonterminal (`Reads.node`), with
blanks between the parts where they are wanted (`ReadsAll.blank`).

That the derivation is the one the parser finds is no concern here, as there is only one.
-/

namespace Spruce

variable {filename : Option String}

/-! ## Derivations without detached signs -/

/-- No sign in a derivation is detached from its digits. -/
def Derivation.IsTight {s : Symbol} (d : Derivation s) : Prop := d.phrase.detachedSigns = []

/-- No sign in some derivations is detached from its digits. -/
def Derivations.IsTight {ss : List Symbol} (ds : Derivations ss) : Prop :=
  ds.phrases.detachedSigns = []

theorem Derivation.isTight_node {x : Nonterminal} (hx : x ≠ .number) {rule : Rule x}
    {parts : Derivations rule.parts} (h : parts.IsTight) :
    (Derivation.node rule parts).IsTight :=
  (ruleImage_detachedSigns hx rule parts.phrases).trans h

theorem Derivations.isTight_cons {s : Symbol} {ss : List Symbol} {first : Derivation s}
    {rest : Derivations ss} (hfirst : first.IsTight) (hrest : rest.IsTight) :
    (Derivations.cons first rest).IsTight := by
  refine (Images.detachedSigns_cons _).trans ?_
  exact List.append_eq_nil_iff.2 ⟨hfirst, hrest⟩

/-- A symbol or keyword that stands at a place. -/
def symbolAt (t : Terminal) (p : Position) : Derivation (.tok t) :=
  .token t (.at t t.spelling p) rfl

/-! ## First characters of a text -/

/-- A text that starts with a character of some kind. -/
def Text.Begins (f : Char → Bool) (text : Text) : Prop := ∃ c cs, text = c :: cs ∧ f c = true

theorem Text.begins_cons {f : Char → Bool} {c : Char} (h : f c = true) (cs : Text) :
    Text.Begins f (c :: cs) := ⟨c, cs, rfl, h⟩

theorem Text.Begins.append {f : Char → Bool} {text : Text} (h : text.Begins f) (rest : Text) :
    Text.Begins f (text ++ rest) := by
  obtain ⟨c, cs, rfl, hc⟩ := h
  exact ⟨c, cs ++ rest, rfl, hc⟩

theorem Text.Begins.opens {f : Char → Bool} {text : Text} (h : text.Begins f) : text.Opens f := by
  obtain ⟨c, cs, rfl, hc⟩ := h
  exact Text.opens_cons.2 hc

theorem Text.Begins.mono {f g : Char → Bool} {text : Text} (h : text.Begins f)
    (hfg : ∀ c, f c = true → g c = true) : text.Begins g := by
  obtain ⟨c, cs, rfl, hc⟩ := h
  exact ⟨c, cs, rfl, hfg c hc⟩

/-- A character that names, numbers and terms in parentheses start with. -/
def isStart (c : Char) : Bool := isAlphanumeric c || isSign c || c = '('

theorem isSolid_of_isStart {c : Char} (h : isStart c = true) : isSolid c = true := by
  simp only [isSolid, isBlank, Bool.not_eq_true', Bool.or_eq_false_iff, decide_eq_false_iff_not]
  refine ⟨⟨⟨?_, ?_⟩, ?_⟩, ?_⟩ <;> rintro rfl <;> exact absurd h (by decide)

theorem isApart_of_isStart {c : Char} (h : isStart c = true) : isApart c = true := by
  simp only [isApart, Bool.and_eq_true, bne_iff_ne]
  constructor <;> rintro rfl <;> exact absurd h (by decide)

theorem isApart_of_isDelimiter {c : Char} (h : isDelimiter c = true) : isApart c = true := by
  simp_all [isDelimiter, isApart]

theorem Text.Begins.not_blank {text : Text} (h : text.Begins isStart) :
    text.Begins fun c => !isBlank c :=
  h.mono fun _ hc => not_isBlank_of_isSolid (isSolid_of_isStart hc)

/-! ## Readings -/

/-- Before any text that is allowed to follow, a text is read as a symbol with a meaning. -/
def Reads (filename : Option String) (follow : Char → Bool) (s : Symbol) (text : Text)
    (P : s.Meaning → Prop) : Prop :=
  ∀ p rest, Text.Opens follow rest → ∃ d : Derivation s, d.IsTight ∧
    P (d.understand filename).meaning ∧
      lexFrom p (text ++ rest) = (lexFrom (p.advance text) rest).prepend d.tokens

/-- The same for symbols one after another. -/
def ReadsAll (filename : Option String) (follow : Char → Bool) (ss : List Symbol) (text : Text)
    (P : Meanings ss → Prop) : Prop :=
  ∀ p rest, Text.Opens follow rest → ∃ ds : Derivations ss, ds.IsTight ∧
    P (ds.understand filename).meanings ∧
      lexFrom p (text ++ rest) = (lexFrom (p.advance text) rest).prepend ds.tokens

section

variable {follow : Char → Bool} {s : Symbol} {ss : List Symbol} {text text₁ text₂ : Text}

theorem Reads.mono {follow' : Char → Bool} {P : s.Meaning → Prop}
    (h : Reads filename follow s text P) (hf : ∀ c, follow' c = true → follow c = true) :
    Reads filename follow' s text P :=
  fun p rest hrest => h p rest (hrest.mono hf)

theorem Reads.imp {P Q : s.Meaning → Prop} (h : Reads filename follow s text P)
    (hPQ : ∀ m, P m → Q m) : Reads filename follow s text Q := by
  intro p rest hrest
  obtain ⟨d, htight, hd, hlex⟩ := h p rest hrest
  exact ⟨d, htight, hPQ _ hd, hlex⟩

theorem ReadsAll.mono {follow' : Char → Bool} {P : Meanings ss → Prop}
    (h : ReadsAll filename follow ss text P) (hf : ∀ c, follow' c = true → follow c = true) :
    ReadsAll filename follow' ss text P :=
  fun p rest hrest => h p rest (hrest.mono hf)

theorem ReadsAll.imp {P Q : Meanings ss → Prop} (h : ReadsAll filename follow ss text P)
    (hPQ : ∀ ms, P ms → Q ms) : ReadsAll filename follow ss text Q := by
  intro p rest hrest
  obtain ⟨ds, htights, hds, hlexes⟩ := h p rest hrest
  exact ⟨ds, htights, hPQ _ hds, hlexes⟩

theorem ReadsAll.nil : ReadsAll filename follow [] [] fun _ => True :=
  fun _ _ _ => ⟨.nil, rfl, trivial, rfl⟩

/-- Readings one after another, if the second allows what follows the first. -/
theorem ReadsAll.cons {follow₁ : Char → Bool} {P : s.Meaning → Prop} {Q : Meanings ss → Prop}
    (h₁ : Reads filename follow₁ s text₁ P) (h₂ : ReadsAll filename follow ss text₂ Q)
    (hnext : ∀ rest, Text.Opens follow rest → Text.Opens follow₁ (text₂ ++ rest)) :
    ReadsAll filename follow (s :: ss) (text₁ ++ text₂) fun ms => P ms.1 ∧ Q ms.2 := by
  intro p rest hrest
  -- the second text is what follows the first
  obtain ⟨d, htight, hd, hlex⟩ := h₁ p (text₂ ++ rest) (hnext rest hrest)
  obtain ⟨ds, htights, hds, hlexes⟩ := h₂ (p.advance text₁) rest hrest
  refine ⟨.cons d ds, Derivations.isTight_cons htight htights, ⟨hd, hds⟩, ?_⟩
  rw [List.append_assoc, hlex, hlexes, ← Lexed.prepend_append, Position.advance_append]
  rfl

/-- The last of some readings. -/
theorem ReadsAll.last {P : s.Meaning → Prop} (h : Reads filename follow s text P) :
    ReadsAll filename follow [s] text fun ms => P ms.1 := by
  intro p rest hrest
  obtain ⟨d, htight, hd, hlex⟩ := h p rest hrest
  refine ⟨.cons d .nil, Derivations.isTight_cons htight rfl, hd, ?_⟩
  rw [hlex, Derivations.tokens, Derivations.tokens, List.append_nil]

/-- A blank before a text changes nothing. -/
theorem ReadsAll.blank {P : Meanings ss → Prop} (h : ReadsAll filename follow ss text P) :
    ReadsAll filename follow ss (' ' :: text) P := by
  intro p rest hrest
  obtain ⟨ds, htights, hds, hlexes⟩ := h (p.advance [' ']) rest hrest
  refine ⟨ds, htights, hds, ?_⟩
  rw [List.cons_append, lexFrom_blank rfl, hlexes]
  rfl

/-- Readings with a blank before the second. -/
theorem ReadsAll.spaced {P : s.Meaning → Prop} {Q : Meanings ss → Prop}
    (h₁ : Reads filename isDelimiter s text₁ P) (h₂ : ReadsAll filename follow ss text₂ Q) :
    ReadsAll filename follow (s :: ss) (text₁ ++ ' ' :: text₂) fun ms => P ms.1 ∧ Q ms.2 :=
  .cons h₁ h₂.blank fun _ _ => Text.opens_cons.2 (by decide)

/-- Readings of the parts of a rule make a reading of its nonterminal. -/
theorem Reads.node {x : Nonterminal} (hx : x ≠ .number) (rule : Rule x)
    {Q : Meanings rule.parts → Prop} {P : x.Meaning → Prop}
    (h : ReadsAll filename follow rule.parts text Q)
    (hmeaning : ∀ span ms, Q ms → P (ruleMeaning rule span ms)) :
    Reads filename follow (.sub x) text P := by
  intro p rest hrest
  obtain ⟨ds, htights, hds, hlexes⟩ := h p rest hrest
  exact ⟨.node rule ds, Derivation.isTight_node hx htights, hmeaning _ _ hds, hlexes⟩

/-! ## Readings of tokens -/

theorem Reads.token {t : Terminal}
    (h : ∀ rest, Text.Opens follow rest → lexeme (text ++ rest) = some ⟨some t, text⟩) :
    Reads filename follow (.tok t) text fun token => token.text = text := by
  intro p rest hrest
  exact ⟨.token t (Token.at t text p) rfl, rfl, rfl, lexFrom_token (h rest hrest) p⟩

theorem Reads.symbol {t : Terminal} (ht : t ∈ Terminal.symbols) :
    Reads filename isApart (.tok t) t.spelling fun token => token.text = t.spelling :=
  .token fun _ hrest => lexeme_symbol ht hrest

theorem Reads.newline {indent : Text} (hindent : indent.IsBlanks) :
    Reads filename isSolid (.tok .newline) ('\n' :: indent)
      fun token => token.text = '\n' :: indent :=
  .token fun _ hrest => lexeme_newline hindent hrest

theorem Reads.keyword {t : Terminal} (ht : t ∈ Terminal.keywords) :
    Reads filename (fun c => !isAlphanumeric c) (.tok t) t.spelling
      fun token => token.text = t.spelling :=
  .token fun _ hrest => lexeme_keyword ht hrest

/-- A symbol before some readings. -/
theorem ReadsAll.symbol {t : Terminal} (ht : t ∈ Terminal.symbols) {P : Meanings ss → Prop}
    (h : ReadsAll filename follow ss text P)
    (hnext : ∀ rest, Text.Opens follow rest → Text.Opens isApart (text ++ rest)) :
    ReadsAll filename follow (.tok t :: ss) (t.spelling ++ text) fun ms => P ms.2 :=
  (ReadsAll.cons (.symbol ht) h hnext).imp fun _ hms => hms.2

/-- A keyword with a blank after it, before some readings. -/
theorem ReadsAll.keyword {t : Terminal} (ht : t ∈ Terminal.keywords) {P : Meanings ss → Prop}
    (h : ReadsAll filename follow ss text P) :
    ReadsAll filename follow (.tok t :: ss) (t.spelling ++ ' ' :: text) fun ms => P ms.2 :=
  (ReadsAll.cons (.keyword ht) h.blank
    fun _ _ => Text.opens_cons.2 (by decide)).imp fun _ hms => hms.2

end

end Spruce
