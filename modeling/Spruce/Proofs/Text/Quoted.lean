import Mathlib.Algebra.Group.Nat.Defs
import Spruce.Text.Quoted

set_option autoImplicit false

/-!
# Where quoted texts end

What is written for a character between quotes tells the character and where its own text ends,
whatever comes after (`IsEscaped.append_inj`). A quoted text therefore tells the text that was
quoted, and where the closing quote is (`quotedChars_append_inj`).

Main definition: `IsEscaped`, the forms in which a character is written between quotes.
-/

namespace Spruce

/-! ## Hexadecimal digits -/

theorem hexDigit_injective : ∀ m < 16, ∀ n < 16, hexDigit m = hexDigit n → m = n := by decide

/-- Numbers that fit into a width are told apart by their digits. -/
theorem hexDigits_injective {width m n : Nat} (hm : m < 16 ^ width) (hn : n < 16 ^ width)
    (h : hexDigits width m = hexDigits width n) : m = n := by
  induction width generalizing m n with
  | zero =>
      rw [Nat.pow_zero] at hm hn
      omega
  | succ width ih =>
      obtain ⟨hhigh, hlow⟩ := List.append_inj' h rfl
      rw [Nat.pow_succ] at hm hn
      have hquotient : m / 16 = n / 16 := ih (by omega) (by omega) hhigh
      have hremainder : m % 16 = n % 16 :=
        hexDigit_injective _ (by omega) _ (by omega) (List.cons.inj hlow).1
      omega

/-! ## Escaped characters -/

/-- One of the two quotes. -/
def IsQuote (quote : Char) : Prop := quote = '\'' ∨ quote = '"'

/-- The character that a letter after a backslash stands for. -/
def letterMeaning (quote letter : Char) : Option Char :=
  if letter = quote ∨ letter = '\\' then some letter
  else if letter = 't' then some '\t'
  else if letter = 'n' then some '\n'
  else if letter = 'r' then some '\r'
  else none

/-- The number of digits that a letter after a backslash announces. -/
def digitCount (letter : Char) : Option Nat :=
  if letter = 'x' then some 2
  else if letter = 'u' then some 4
  else if letter = 'U' then some 8
  else none

/-- The forms in which a character is written between quotes: as itself, by a letter, or by its code
point. -/
inductive IsEscaped (quote c : Char) : Text → Prop where
  | itself (hquote : c ≠ quote) (hbackslash : c ≠ '\\') : IsEscaped quote c [c]
  | letter {letter : Char} (h : letterMeaning quote letter = some c) :
      IsEscaped quote c ['\\', letter]
  | code {letter : Char} {width : Nat} (hletter : letterMeaning quote letter = none)
      (hwidth : digitCount letter = some width) (hcode : c.toNat < 16 ^ width) :
      IsEscaped quote c ('\\' :: letter :: hexDigits width c.toNat)

theorem isEscaped_escapeCode {quote : Char} (hquote : IsQuote quote) (c : Char) :
    IsEscaped quote c (escapeCode c.toNat) := by
  have hletter : letterMeaning quote 'x' = none ∧ letterMeaning quote 'u' = none ∧
      letterMeaning quote 'U' = none := by
    rcases hquote with rfl | rfl <;> decide
  rw [escapeCode]
  split
  · exact .code hletter.1 rfl ‹_›
  · split
    · exact .code hletter.2.1 rfl ‹_›
    · have hcode : c.toNat < 2 ^ 32 := c.val.toNat_lt
      exact .code hletter.2.2 rfl hcode

/-- Every character is written in one of the forms. -/
theorem isEscaped_escape {quote : Char} (hquote : IsQuote quote) (c : Char) :
    IsEscaped quote c (escape quote c) := by
  have hletter : letterMeaning quote 't' = some '\t' ∧ letterMeaning quote 'n' = some '\n' ∧
      letterMeaning quote 'r' = some '\r' := by
    rcases hquote with rfl | rfl <;> decide
  rw [escape]
  split
  · exact .letter (if_pos ‹_›)
  · next hother =>
      obtain ⟨hne, hbackslash⟩ := not_or.1 hother
      split
      · next htab => exact htab ▸ .letter hletter.1
      · split
        · next hfeed => exact hfeed ▸ .letter hletter.2.1
        · split
          · next hreturn => exact hreturn ▸ .letter hletter.2.2
          · split
            · exact .itself hne hbackslash
            · exact isEscaped_escapeCode hquote c

/-- Two escaped characters at the beginning of one text are the same. -/
theorem IsEscaped.append_inj {quote c d : Char} {cs ds r s : Text} (hc : IsEscaped quote c cs)
    (hd : IsEscaped quote d ds) (h : cs ++ r = ds ++ s) : c = d ∧ r = s := by
  cases hc with
  | itself hquote hbackslash =>
      cases hd with
      | itself _ _ => exact List.cons.inj h
      | letter _ => exact absurd (List.cons.inj h).1 hbackslash
      | code _ _ _ => exact absurd (List.cons.inj h).1 hbackslash
  | letter hmeaning =>
      cases hd with
      | itself _ hbackslash => exact absurd (List.cons.inj h).1.symm hbackslash
      | letter hmeaning' =>
          obtain ⟨rfl, hrest⟩ := List.cons.inj (List.cons.inj h).2
          exact ⟨Option.some.inj (hmeaning.symm.trans hmeaning'), hrest⟩
      | code hnone _ _ =>
          obtain ⟨rfl, -⟩ := List.cons.inj (List.cons.inj h).2
          rw [hmeaning] at hnone
          cases hnone
  | code hnone hwidth hcode =>
      cases hd with
      | itself _ hbackslash => exact absurd (List.cons.inj h).1.symm hbackslash
      | letter hmeaning =>
          obtain ⟨rfl, -⟩ := List.cons.inj (List.cons.inj h).2
          rw [hmeaning] at hnone
          cases hnone
      | code _ hwidth' hcode' =>
          obtain ⟨rfl, hdigits⟩ := List.cons.inj (List.cons.inj h).2
          obtain rfl := Option.some.inj (hwidth.symm.trans hwidth')
          -- as many digits on both sides
          obtain ⟨hsame, hrest⟩ := List.append_inj hdigits (by simp)
          exact ⟨Char.toNat_inj.1 (hexDigits_injective hcode hcode' hsame), hrest⟩

/-- No escaped character begins with the quote. -/
theorem IsEscaped.ne_quote {quote c : Char} {cs r s : Text} (hquote : IsQuote quote)
    (hc : IsEscaped quote c cs) : cs ++ r ≠ quote :: s := by
  have hbackslash : '\\' ≠ quote := by
    rcases hquote with rfl | rfl <;> decide
  cases hc with
  | itself hne _ => exact fun h => hne (List.cons.inj h).1
  | letter _ => exact fun h => hbackslash (List.cons.inj h).1
  | code _ _ _ => exact fun h => hbackslash (List.cons.inj h).1

/-! ## Quoted texts -/

/-- What stands before the closing quote tells the text. -/
theorem escaped_append_inj {quote : Char} (hquote : IsQuote quote) {cs ds r s : Text}
    (h : cs.flatMap (escape quote) ++ quote :: r = ds.flatMap (escape quote) ++ quote :: s) :
    cs = ds ∧ r = s := by
  induction cs generalizing ds with
  | nil =>
      cases ds with
      | nil => exact ⟨rfl, (List.cons.inj h).2⟩
      | cons d ds =>
          rw [List.flatMap_cons, List.append_assoc] at h
          exact absurd h.symm ((isEscaped_escape hquote d).ne_quote hquote)
  | cons c cs ih =>
      rw [List.flatMap_cons, List.append_assoc] at h
      cases ds with
      | nil => exact absurd h ((isEscaped_escape hquote c).ne_quote hquote)
      | cons d ds =>
          rw [List.flatMap_cons, List.append_assoc] at h
          obtain ⟨rfl, hlater⟩ :=
            (isEscaped_escape hquote c).append_inj (isEscaped_escape hquote d) h
          obtain ⟨rfl, rfl⟩ := ih hlater
          exact ⟨rfl, rfl⟩

theorem isQuote_quoteFor (cs : Text) : IsQuote (quoteFor cs) := by
  rw [quoteFor]
  split
  · exact .inr rfl
  · exact .inl rfl

/-- Two quoted texts at the beginning of one text are the same. -/
theorem quotedChars_append_inj {cs ds r s : Text} (h : quotedChars cs ++ r = quotedChars ds ++ s) :
    cs = ds ∧ r = s := by
  simp only [quotedChars, List.cons_append, List.append_assoc, List.nil_append] at h
  obtain ⟨hquote, hinside⟩ := List.cons.inj h
  rw [← hquote] at hinside
  exact escaped_append_inj (isQuote_quoteFor cs) hinside

end Spruce
