import Spruce.Number.Reading
import Spruce.Proofs.Number.Rounding
import Spruce.Proofs.Token.Cutting

set_option autoImplicit false

/-!
# Rounding decimal numbers

Digits write a number that grows by their count (`digitsValue_append`, `digitsValue_lt`), and zeros
in front do not count (`digitsValue_dropWhile_zero`). So the count of significant digits and the
power of ten bound the number from both sides, and numbers far out of range may be told without
working them out. For all others the quotient of two whole numbers is rounded
(`exists_isNearest_decimalBits`).
-/

namespace Spruce

/-! ## The number that digits write -/

theorem digitsValue_concat (ds : Text) (c : Char) :
    digitsValue (ds ++ [c]) = 10 * digitsValue ds + digitValue c := by
  rw [digitsValue, digitsValue, List.foldl_concat]

theorem digitsValue_append (cs ds : Text) :
    digitsValue (cs ++ ds) = digitsValue cs * 10 ^ ds.length + digitsValue ds := by
  induction ds using List.reverseRecOn with
  | nil => simp [digitsValue]
  | append_singleton ds d ih =>
      rw [← List.append_assoc, digitsValue_concat, digitsValue_concat, ih, List.length_append,
        List.length_singleton, pow_succ]
      ring

theorem digitsValue_cons (c : Char) (cs : Text) :
    digitsValue (c :: cs) = digitValue c * 10 ^ cs.length + digitsValue cs := by
  have hone : digitsValue [c] = digitValue c := by simp [digitsValue]
  rw [← hone, ← digitsValue_append, List.singleton_append]

theorem digitValue_eq (c : Char) : digitValue c = c.toNat - 48 := rfl

theorem digitValue_lt {c : Char} (h : isDigit c = true) : digitValue c < 10 := by
  have hrange := isDigit_iff.1 h
  rw [digitValue_eq]
  omega

theorem digitsValue_lt {ds : Text} (h : ds.IsDigits) : digitsValue ds < 10 ^ ds.length := by
  induction ds with
  | nil => exact Nat.one_pos
  | cons c ds ih =>
      have hlater := ih fun d hd => h d (List.mem_cons_of_mem c hd)
      have hdigit := digitValue_lt (h c List.mem_cons_self)
      rw [digitsValue_cons, List.length_cons, pow_succ']
      nlinarith

theorem digitsValue_dropWhile_zero (ds : Text) :
    digitsValue (ds.dropWhile (· = '0')) = digitsValue ds := by
  induction ds with
  | nil => rfl
  | cons c ds ih =>
      rw [List.dropWhile_cons]
      split
      · next hc =>
          rw [of_decide_eq_true hc, digitsValue_cons, ih]
          simp [digitValue]
      · rfl

/-- Digits that do not begin with a zero write a number with as many digits. -/
theorem le_digitsValue {c : Char} {ds : Text} (hdigit : isDigit c = true) (hne : c ≠ '0') :
    10 ^ ds.length ≤ digitsValue (c :: ds) := by
  have hpos : 0 < digitValue c := by
    have hrange := isDigit_iff.1 hdigit
    have hcode : c.toNat ≠ 48 := fun h => hne (Char.toNat_inj.1 h)
    rw [digitValue_eq]
    omega
  rw [digitsValue_cons]
  nlinarith [Nat.pow_pos (n := ds.length) (show 0 < 10 by decide)]

/-! ## Numbers far out of range -/

/-- Ten to the power of `hugePower` is too large for the format. -/
theorem le_ten_zpow {top : ℤ} (h : hugePower < top) : (2 : ℚ) ^ 1024 ≤ 10 ^ (top - 1) := by
  have hlarge : 2 ^ 1024 ≤ 10 ^ 309 := by decide +kernel
  have hpower : (10 : ℚ) ^ (309 : ℤ) ≤ 10 ^ (top - 1) :=
    zpow_le_zpow_right₀ (by norm_num) (by rw [hugePower] at h; omega)
  refine le_trans ?_ hpower
  exact_mod_cast hlarge

theorem ten_zpow_lt {top : ℤ} (h : top ≤ tinyPower) : (10 : ℚ) ^ top < 2 ^ (-1075 : ℤ) := by
  have hlarge : 2 ^ 1075 < 10 ^ 324 := by decide +kernel
  have hpower : (10 : ℚ) ^ top ≤ 10 ^ (-324 : ℤ) :=
    zpow_le_zpow_right₀ (by norm_num) h
  refine hpower.trans_lt ?_
  rw [zpow_neg, zpow_neg]
  exact inv_strictAnti₀ (by positivity) (by exact_mod_cast hlarge)

/-- Less than half the smallest number of the format is nearest to zero. -/
theorem isNearest_zero_of_lt {x : ℚ} (hnonneg : 0 ≤ x) (hless : x < 2 ^ (-1075 : ℤ)) :
    IsNearest x 0 := by
  have hone : gridValue (0 + 1) = 2 * 2 ^ (-1075 : ℤ) := by
    have hunits := gridValue_units (e := 0) (u := 1) (by omega) (.inl rfl)
    rw [zero_mul] at hunits
    rw [hunits, Nat.cast_one, one_mul, ← zpow_one_add₀ two_ne_zero]
    rfl
  have hpos : (0 : ℚ) < 2 ^ (-1075 : ℤ) := by positivity
  refine isNearest_below ?_ ?_ ?_ fun _ => rfl
  · rwa [gridValue_zero]
  · rw [hone]
    linarith
  · rw [hone, gridValue_zero]
    linarith

/-! ## Rounding -/

/-- How many digits there are bounds the number that they write times a power of ten. -/
theorem decimal_bounds {c : Char} {ds : Text} (h : Text.IsDigits (c :: ds)) (hne : c ≠ '0')
    (power : ℤ) : (10 : ℚ) ^ (power + (c :: ds).length - 1) ≤ digitsValue (c :: ds) * 10 ^ power ∧
      digitsValue (c :: ds) * 10 ^ power < (10 : ℚ) ^ (power + (c :: ds).length) := by
  have hpos : (0 : ℚ) < 10 ^ power := by positivity
  have hten : (10 : ℚ) ≠ 0 := by norm_num
  constructor
  · have hlow : 10 ^ ds.length ≤ digitsValue (c :: ds) :=
      le_digitsValue (h c List.mem_cons_self) hne
    have hpower : power + (c :: ds).length - 1 = ds.length + power := by
      rw [List.length_cons]
      omega
    rw [hpower, zpow_add₀ hten, zpow_natCast]
    exact mul_le_mul_of_nonneg_right (by exact_mod_cast hlow) hpos.le
  · rw [add_comm, zpow_add₀ hten, zpow_natCast]
    exact mul_lt_mul_of_pos_right (by exact_mod_cast digitsValue_lt h) hpos

/-- A decimal number as the quotient of two whole numbers. -/
theorem decimal_eq_div (n : ℕ) (power : ℤ) :
    ((n * Nat.pow 10 power.toNat : ℕ) / (Nat.pow 10 (-power).toNat : ℕ) : ℚ) =
      n * 10 ^ power := by
  rw [zpow_eq_div, Nat.pow_eq, Nat.pow_eq, Nat.cast_mul, Nat.cast_pow, Nat.cast_pow,
    Nat.cast_ofNat, mul_div_assoc]

/-- What is told without working out the number, and what is worked out, is the nearest point, or
infinity if that is less. -/
theorem exists_isNearest_decimalBits {ds : Text} (h : ds.IsDigits) (power : ℤ) :
    ∃ m, decimalBits ds power = min infinityBits m ∧
      IsNearest (digitsValue ds * 10 ^ power) m := by
  have hsignificant : Text.IsDigits (ds.dropWhile (· = '0')) :=
    fun c hc => h c ((List.dropWhile_sublist _).subset hc)
  have hhead : ∀ c ∈ (ds.dropWhile (· = '0')).head?, c ≠ '0' := by
    intro c hc
    have hnot := List.head?_dropWhile_not (· = '0') ds
    rw [Option.mem_def.1 hc] at hnot
    exact of_decide_eq_false (by simpa using hnot)
  rw [← digitsValue_dropWhile_zero, decimalBits]
  generalize ds.dropWhile (· = '0') = significant at hsignificant hhead
  cases significant with
  | nil =>
      rw [if_pos rfl, digitsValue, List.foldl_nil, Nat.cast_zero, zero_mul]
      exact ⟨0, (Nat.min_zero _).symm, isNearest_zero⟩
  | cons c cs =>
      obtain ⟨hlow, hhigh⟩ := decimal_bounds hsignificant (hhead c rfl) power
      have hden : 0 < Nat.pow 10 (-power).toNat := Nat.pow_pos (by decide)
      obtain ⟨m, hm, hnear⟩ := exists_isNearest_magnitudeBits
        (digitsValue (c :: cs) * Nat.pow 10 power.toNat) hden
      rw [decimal_eq_div] at hnear
      rw [if_neg (List.cons_ne_nil c cs)]
      refine ⟨m, ?_, hnear⟩
      -- what is told without working out the quotient agrees with the point nearest to it
      split_ifs with hhuge htiny
      · have hlarge := (le_ten_zpow hhuge).trans hlow
        have hreached : (2 : ℚ) ^ 1024 - 2 ^ 970 ≤ digitsValue (c :: cs) * 10 ^ power :=
          (sub_le_self _ (by positivity)).trans hlarge
        exact (Nat.min_eq_left (hnear.infinity_le_iff.2 hreached)).symm
      · have hzero := isNearest_zero_of_lt (by positivity) (hhigh.trans (ten_zpow_lt htiny))
        rw [hnear.unique hzero, Nat.min_zero]
      · exact hm

end Spruce
