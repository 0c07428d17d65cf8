set_option autoImplicit false

/-!
# Texts

Printed forms are built as lists of characters and become strings only at the
edge of the library. Texts that are put together with a separator are the first of
them and then the others, each after a separator (`intercalate_cons`). Where a mark
does not occur in what is before it, the mark tells where that ends
(`append_mark_inj`). Whole numbers are written in decimal notation, or with a fixed
count of lower-case hexadecimal digits.

Main definitions: `Text` and `commaSeparated`; `naturalText`, `integerText` and
`hexDigits`.
-/

namespace Spruce

/-- A text, character by character. -/
abbrev Text := List Char

/-! ## Separators and marks -/

/-- The given texts with a comma and a blank between each two. -/
def commaSeparated (items : List Text) : Text := [',', ' '].intercalate items

theorem intercalate_cons (separator t : Text) (ts : List Text) :
    separator.intercalate (t :: ts) = t ++ ts.flatMap (separator ++ ·) := by
  induction ts generalizing t with
  | nil => simp
  | cons u ts ih =>
      have hlater := ih u
      simp only [List.intercalate, List.intersperse, List.flatten_cons] at hlater ⊢
      rw [hlater]
      simp

theorem commaSeparated_cons (t : Text) (ts : List Text) :
    commaSeparated (t :: ts) = t ++ ts.flatMap ([',', ' '] ++ ·) := intercalate_cons _ t ts

theorem commaSeparated_cons_cons (t u : Text) (ts : List Text) :
    commaSeparated (t :: u :: ts) = t ++ ',' :: ' ' :: commaSeparated (u :: ts) := by
  simp [commaSeparated, List.intercalate, List.intersperse]

theorem commaSeparated_single (t : Text) : commaSeparated [t] = t ++ [] := by
  simp [commaSeparated]

/-- Two texts without a mark, each up to the mark, at the beginning of one text are the same. -/
theorem append_mark_inj {mark : Char} {cs ds r s : Text} (hcs : mark ∉ cs) (hds : mark ∉ ds)
    (h : cs ++ mark :: r = ds ++ mark :: s) : cs = ds ∧ r = s := by
  induction cs generalizing ds with
  | nil =>
      cases ds with
      | nil => exact ⟨rfl, (List.cons.inj h).2⟩
      | cons d ds => exact absurd ((List.cons.inj h).1 ▸ List.mem_cons_self) hds
  | cons c cs ih =>
      cases ds with
      | nil => exact absurd ((List.cons.inj h).1 ▸ List.mem_cons_self) hcs
      | cons d ds =>
          obtain ⟨rfl, hlater⟩ := List.cons.inj h
          obtain ⟨rfl, rfl⟩ := ih (mt (List.mem_cons_of_mem c) hcs)
            (mt (List.mem_cons_of_mem c) hds) hlater
          exact ⟨rfl, rfl⟩

/-! ## Numbers as texts -/

/-- A natural number in decimal notation. -/
def naturalText (n : Nat) : Text := Nat.toDigits 10 n

/-- A whole number in decimal notation, a minus sign before it when it is
negative. -/
def integerText : Int → Text
  | .ofNat n => naturalText n
  | .negSucc n => '-' :: naturalText (n + 1)

/-- The hexadecimal digit of `n`, for `n` below sixteen. -/
def hexDigit (n : Nat) : Char :=
  if n < 10 then Char.ofNat ('0'.toNat + n) else Char.ofNat ('a'.toNat + (n - 10))

/-- The last `width` hexadecimal digits of `n`, most significant first. -/
def hexDigits : (width : Nat) → (n : Nat) → Text
  | 0, _ => []
  | width + 1, n => hexDigits width (n / 16) ++ [hexDigit (n % 16)]

@[simp] theorem hexDigits_length (width n : Nat) : (hexDigits width n).length = width := by
  induction width generalizing n with
  | zero => rfl
  | succ width ih => simp [hexDigits, ih]

end Spruce
