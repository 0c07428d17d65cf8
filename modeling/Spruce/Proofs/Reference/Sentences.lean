import Spruce.Proofs.Grammar.Viable
import Spruce.Proofs.Reference.Unambiguous

set_option autoImplicit false

/-!
# Sentences and their beginnings

A sentence of a starting point is the sequence of kinds of the tokens of some phrase of it, and a
sequence of kinds is viable if some sentence begins with it. Which tokens carry the kinds makes no
difference to what derivations there are (`Derivation.exists_relabelled`), so that sentences and
viable sequences are just what the readings of tokens tell (`sentence_iff`, `viable_iff`,
`viable_concat_iff`).
-/

namespace Spruce

open Reference

/-! ## Sentences -/

/-- The kinds of some tokens. -/
def kinds (tokens : List Token) : List Terminal := tokens.map Token.kind

namespace Start

/-- Kinds of tokens that are those of a phrase of a whole text. -/
def Sentence (start : Start) (ts : List Terminal) : Prop :=
  ∃ phrase : Phrase (.construct start.construct), kinds phrase.tokens = ts

/-- Kinds of tokens that a sentence begins with. -/
def Viable (start : Start) (ts : List Terminal) : Prop :=
  ∃ later, start.Sentence (ts ++ later)

end Start

/-! ## Other tokens of the same kinds -/

theorem kinds_append (ts us : List Token) : kinds (ts ++ us) = kinds ts ++ kinds us :=
  List.map_append

mutual

/-- Tokens of the same kinds have the same derivations. -/
theorem Derivation.exists_relabelled : {s : Symbol} → (d : Derivation s) → {ts : List Token} →
    kinds ts = kinds d.tokens → ∃ d' : Derivation s, d'.tokens = ts
  | _, .token t token kind_eq, ts, h => by
      obtain ⟨token', rfl⟩ : ∃ token', ts = [token'] :=
        List.length_eq_one_iff.1 (by simpa [kinds, Derivation.tokens] using congrArg List.length h)
      have hkind : token'.kind = t := by
        simpa [kinds, Derivation.tokens, kind_eq] using h
      exact ⟨.token t token' hkind, rfl⟩
  | _, .node rule parts, ts, h => by
      obtain ⟨parts', rfl⟩ := parts.exists_relabelled h
      exact ⟨.node rule parts', rfl⟩

theorem Derivations.exists_relabelled : {ss : List Symbol} → (ds : Derivations ss) →
    {ts : List Token} → kinds ts = kinds ds.tokens → ∃ ds' : Derivations ss, ds'.tokens = ts
  | _, .nil, ts, h => by
      obtain rfl : ts = [] := List.map_eq_nil_iff.1 h
      exact ⟨.nil, rfl⟩
  | _, .cons first rest, ts, h => by
      rw [Derivations.tokens, kinds_append] at h
      obtain ⟨ts₁, ts₂, rfl, h₁, h₂⟩ := List.map_eq_append_iff.1 h
      obtain ⟨first', rfl⟩ := first.exists_relabelled h₁
      obtain ⟨rest', rfl⟩ := rest.exists_relabelled h₂
      exact ⟨.cons first' rest', rfl⟩

end

/-! ## Sentences and derivations -/

namespace Start

variable {start : Start}

theorem sentence_iff {ts : List Token} :
    start.Sentence (kinds ts) ↔ ∃ d : Derivation start.goal, d.tokens = ts := by
  constructor
  · rintro ⟨phrase, hphrase⟩
    obtain ⟨d, rfl⟩ := exists_phrase_eq phrase
    rw [phrase_tokens] at hphrase
    exact d.exists_relabelled hphrase.symm
  · rintro ⟨d, rfl⟩
    exact ⟨start.phrase d, congrArg kinds (phrase_tokens d)⟩

theorem viable_iff {ts : List Token} :
    start.Viable (kinds ts) ↔ ∃ d : Derivation start.goal, ts <+: d.tokens := by
  constructor
  · rintro ⟨later, phrase, hphrase⟩
    obtain ⟨us, vs, husvs, hus, -⟩ := List.map_eq_append_iff.1 hphrase
    -- the tokens `ts` take the place of those that the sentence begins with
    have hsentence : start.Sentence (kinds (ts ++ vs)) := by
      refine ⟨phrase, ?_⟩
      rw [husvs, kinds_append, kinds_append]
      exact congrArg (· ++ kinds vs) hus
    obtain ⟨d, hd⟩ := sentence_iff.1 hsentence
    exact ⟨d, hd ▸ List.prefix_append ts vs⟩
  · rintro ⟨d, later, hd⟩
    refine ⟨kinds later, ?_⟩
    rw [← kinds_append]
    exact sentence_iff.2 ⟨d, hd.symm⟩

theorem viable_concat_iff {ts : List Token} {t : Terminal} :
    start.Viable (kinds ts ++ [t]) ↔
      ∃ (token : Token) (d : Derivation start.goal),
        token.kind = t ∧ ts ++ [token] <+: d.tokens := by
  constructor
  · intro h
    have hkinds : kinds ts ++ [t] = kinds (ts ++ [⟨t, [], .origin, 0⟩]) := by
      rw [kinds_append]
      rfl
    rw [hkinds] at h
    obtain ⟨d, hd⟩ := viable_iff.1 h
    exact ⟨_, d, rfl, hd⟩
  · rintro ⟨token, d, rfl, hd⟩
    have hkinds : kinds ts ++ [token.kind] = kinds (ts ++ [token]) := (kinds_append ts [token]).symm
    rw [hkinds]
    exact viable_iff.2 ⟨d, hd⟩

end Start

end Spruce
