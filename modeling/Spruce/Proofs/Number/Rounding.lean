import Spruce.Proofs.Number.Grid

set_option autoImplicit false

/-!
# Rounding to the nearest number

`magnitudeBits` finds the point of the grid that is nearest to a quotient, and takes every point
from infinity on for infinity (`exists_isNearest_magnitudeBits`). The spacing it measures in fits,
because `floorLog2` is the exact whole part of a logarithm (`floorLog2_spec`).

The nearest point is at infinity or past it from half a unit above the largest number on
(`IsNearest.infinity_le_iff`), and so the pattern that is found is the one that stands for the
rounded number (`RoundsTo`).

Main definitions: `Binary64.magnitudeValue` and `RoundsTo`.
-/

namespace Spruce

/-! ## Powers of two -/

/-- A power with any whole number as exponent is the quotient of two powers. -/
theorem zpow_eq_div (b : ℚ) (k : ℤ) : b ^ k = b ^ k.toNat / b ^ (-k).toNat := by
  obtain ⟨n, rfl | rfl⟩ := k.eq_nat_or_neg <;> simp

/-- A quotient measured in units of a power of two. -/
theorem scaled_eq_div (num den : ℕ) (k : ℤ) :
    ((num * Nat.pow 2 (-k).toNat : ℕ) / (den * Nat.pow 2 k.toNat : ℕ) : ℚ) =
      num / den / 2 ^ k := by
  rw [zpow_eq_div, Nat.cast_mul, Nat.cast_mul, Nat.pow_eq, Nat.pow_eq, Nat.cast_pow, Nat.cast_pow,
    Nat.cast_ofNat, div_div_eq_mul_div, div_mul_eq_mul_div, div_div]

section

variable {num den : ℕ}

theorem two_zpow_le_iff (hden : 0 < den) (k : ℤ) :
    (2 : ℚ) ^ k ≤ num / den ↔ den * Nat.pow 2 k.toNat ≤ num * Nat.pow 2 (-k).toNat := by
  have hpos : (0 : ℚ) < (den * Nat.pow 2 k.toNat : ℕ) :=
    Nat.cast_pos.2 (Nat.mul_pos hden (Nat.pow_pos two_pos))
  rw [← one_le_div (zpow_pos two_pos k), ← scaled_eq_div, one_le_div hpos, Nat.cast_le]

/-- The logarithms of the parts tell the logarithm of a quotient but for one. -/
theorem two_zpow_log2_bounds (hnum : 0 < num) (hden : 0 < den) :
    (2 : ℚ) ^ ((num.log2 : ℤ) - den.log2 - 1) < num / den ∧
      (num / den : ℚ) < 2 ^ ((num.log2 : ℤ) - den.log2 + 1) := by
  have hbounds : ∀ {n : ℕ}, 0 < n →
      (2 : ℚ) ^ (n.log2 : ℤ) ≤ n ∧ (n : ℚ) < 2 ^ (n.log2 + 1 : ℤ) := by
    intro n hn
    constructor
    · rw [zpow_natCast]
      exact_mod_cast Nat.log2_self_le hn.ne'
    · exact_mod_cast (Nat.lt_log2_self : n < 2 ^ (n.log2 + 1))
  have hden' : (0 : ℚ) < den := Nat.cast_pos.2 hden
  obtain ⟨hnumlow, hnumhigh⟩ := hbounds hnum
  obtain ⟨hdenlow, hdenhigh⟩ := hbounds hden
  constructor
  · rw [sub_sub, zpow_sub₀ two_ne_zero]
    exact div_lt_div₀' hnumlow hdenhigh (by positivity) hden'
  · rw [sub_add_eq_add_sub, zpow_sub₀ two_ne_zero]
    exact div_lt_div₀ hnumhigh hdenlow (by positivity) (by positivity)

theorem floorLog2_spec (hnum : 0 < num) (hden : 0 < den) :
    (2 : ℚ) ^ floorLog2 num den ≤ num / den ∧ (num / den : ℚ) < 2 ^ (floorLog2 num den + 1) := by
  obtain ⟨hlow, hhigh⟩ := two_zpow_log2_bounds hnum hden
  rw [floorLog2]
  split
  · next h => exact ⟨(two_zpow_le_iff hden _).2 (of_decide_eq_true h), hhigh⟩
  · next h =>
      refine ⟨hlow.le, ?_⟩
      rw [sub_add_cancel]
      exact lt_of_not_ge fun hle => h (decide_eq_true ((two_zpow_le_iff hden _).1 hle))

/-! ## The nearest pattern -/

/-- The spacing near a quotient leaves at most as many units as a significand has. -/
theorem units_bounds (hnum : 0 < num) (hden : 0 < den) :
    (num / den / 2 ^ spacing num den : ℚ) < 2 ^ 53 ∧
      (spacing num den = -1074 ∨ 2 ^ 52 ≤ (num / den / 2 ^ spacing num den : ℚ)) := by
  obtain ⟨hlow, hhigh⟩ := floorLog2_spec hnum hden
  have hpos : (0 : ℚ) < 2 ^ spacing num den := zpow_pos two_pos _
  have hspacing : spacing num den = max (floorLog2 num den - 52) (-1074) := rfl
  constructor
  · rw [div_lt_iff₀ hpos, ← zpow_natCast, ← zpow_add₀ two_ne_zero]
    refine hhigh.trans_le (zpow_le_zpow_right₀ one_le_two ?_)
    omega
  · rcases le_total (floorLog2 num den - 52) (-1074) with hle | hle
    · exact .inl (hspacing.trans (max_eq_right hle))
    · right
      rw [le_div_iff₀ hpos, ← zpow_natCast, ← zpow_add₀ two_ne_zero]
      refine le_trans (zpow_le_zpow_right₀ one_le_two ?_) hlow
      omega

/-- The pattern that is found is that of the nearest point, or of infinity if that is less. -/
theorem exists_isNearest_magnitudeBits (num : ℕ) (hden : 0 < den) :
    ∃ m, magnitudeBits num den = min infinityBits m ∧ IsNearest (num / den) m := by
  rcases num.eq_zero_or_pos with rfl | hnum
  · refine ⟨0, by rw [magnitudeBits, if_pos rfl, Nat.min_zero], ?_⟩
    rw [Nat.cast_zero, zero_div]
    exact isNearest_zero
  · obtain ⟨q, hq⟩ : ∃ q, q = spacing num den := ⟨_, rfl⟩
    -- the spacing is the one at some place of the grid
    obtain ⟨e, he⟩ : ∃ e : ℕ, q = e - 1074 :=
      ⟨(q + 1074).toNat, by rw [hq, spacing, smallestSpacing]; omega⟩
    have hsum : (q + 1074).toNat = e := by omega
    have hpos : 0 < den * Nat.pow 2 q.toNat := Nat.mul_pos hden (Nat.pow_pos two_pos)
    obtain ⟨hless, hsmall⟩ := units_bounds hnum hden
    rw [← hq, ← scaled_eq_div] at hless hsmall
    have hround := isNearest_round hpos hless (hsmall.imp_left (by omega : q = -1074 → e = 0))
    rw [scaled_eq_div, ← he, div_mul_cancel₀ _ (zpow_pos two_pos q).ne'] at hround
    refine ⟨_, ?_, hround⟩
    rw [magnitudeBits, if_neg hnum.ne', ← hq]
    simp only [smallestSpacing, fractionBits, Nat.pow_eq, Nat.cast_ofNat, hsum]

end

/-! ## Infinity -/

theorem gridValue_infinityBits : gridValue infinityBits = 2 ^ 1024 := by
  have hunits : infinityBits = 2046 * 2 ^ 52 + 2 ^ 52 := by decide
  have hplace : ((2046 : ℕ) : ℤ) - 1074 = (972 : ℕ) := by norm_num
  rw [hunits, gridValue_units (by omega) (.inr le_rfl), hplace, zpow_natCast, Nat.cast_pow,
    Nat.cast_ofNat, ← pow_add]

/-- The largest number of the format is one unit below the next power of two. -/
theorem gridValue_largest : gridValue (infinityBits - 1) = 2 ^ 1024 - 2 ^ 971 := by
  have hunits : infinityBits - 1 = 2045 * 2 ^ 52 + (2 ^ 53 - 1) := by decide
  have hplace : ((2045 : ℕ) : ℤ) - 1074 = (971 : ℕ) := by norm_num
  rw [hunits, gridValue_units (by omega) (.inr (by omega)), hplace, zpow_natCast,
    Nat.cast_pred (Nat.pow_pos two_pos), sub_mul, one_mul, Nat.cast_pow, Nat.cast_ofNat, ← pow_add]

/-- From half a unit above the largest number on, the nearest point is infinity or past it. -/
theorem IsNearest.infinity_le_iff {r : ℚ} {m : ℕ} (h : IsNearest r m) :
    infinityBits ≤ m ↔ 2 ^ 1024 - 2 ^ 970 ≤ r := by
  -- half a unit, by a name, as the powers are too large to be worked out
  obtain ⟨c, hc⟩ : ∃ c : ℚ, c = 2 ^ 970 := ⟨_, rfl⟩
  have hpos : 0 < c := by rw [hc]; positivity
  have hlargest : gridValue (infinityBits - 1) = gridValue infinityBits - 2 * c := by
    rw [gridValue_largest, gridValue_infinityBits, hc, ← pow_succ']
  rw [← gridValue_infinityBits, ← hc]
  clear hc
  constructor
  · intro hm
    have hgrid := gridValue_strictMono.monotone hm
    have hnear := (h (infinityBits - 1)).1
    by_contra hr
    rw [abs_of_neg (by linarith)] at hnear
    rcases abs_cases (r - gridValue (infinityBits - 1)) with ⟨habs, -⟩ | ⟨habs, -⟩ <;> linarith
  · intro hr
    by_contra hm
    have hgrid := gridValue_strictMono.monotone (Nat.le_sub_one_of_lt (Nat.lt_of_not_le hm))
    obtain ⟨hnear, heven⟩ := h infinityBits
    rw [abs_of_pos (by linarith)] at hnear heven
    rcases abs_cases (r - gridValue infinityBits) with ⟨habs, -⟩ | ⟨habs, -⟩
    · linarith
    · -- only in the middle is infinity not nearer, and the largest number is odd
      have hsame : m = infinityBits - 1 := gridValue_strictMono.injective (by linarith)
      have hodd : (infinityBits - 1) % 2 = 1 := by decide
      rw [hsame] at heven
      have := heven (by decide) (by linarith)
      omega

/-! ## Rounded numbers -/

namespace Binary64

/-- A number of the format that is no infinity. -/
def IsFinite (x : Binary64) : Prop := x.magnitude < infinityBits

/-- The magnitude of a finite number. -/
def magnitudeValue (x : Binary64) : ℚ := x.significand * 2 ^ x.exponent

theorem significand_eq (x : Binary64) : x.significand = gridUnits x.magnitude := by
  have hfields : x.exponentField = x.magnitude / 2 ^ 52 ∧ x.fractionField = x.magnitude % 2 ^ 52 :=
    ⟨rfl, rfl⟩
  rw [gridUnits, gridPlace, significand, fractionBits, Nat.pow_eq]
  split_ifs <;> omega

theorem gridValue_magnitude (x : Binary64) : gridValue x.magnitude = x.magnitudeValue := by
  have hplace : x.exponent = (gridPlace x.magnitude : ℤ) - 1074 := by
    simp only [exponent, exponentField, fractionBits, smallestSpacing, gridPlace, Nat.pow_eq]
    omega
  rw [magnitudeValue, gridValue, hplace, significand_eq]

/-- A magnitude up to infinity leaves room for the sign. -/
theorem ofMagnitude_spec (negative : Bool) {m : ℕ} (hm : m ≤ infinityBits) :
    (ofMagnitude negative m).bits < 2 ^ 64 ∧ (ofMagnitude negative m).isNegative = negative ∧
      (ofMagnitude negative m).magnitude = m := by
  have hroom : infinityBits < 2 ^ 63 := by decide
  have hsign : signBit = 2 ^ 63 := rfl
  simp only [isNegative, magnitude, ofMagnitude, hsign]
  cases negative with
  | false =>
      rw [if_neg Bool.false_ne_true]
      exact ⟨by omega, decide_eq_false (by omega), Nat.mod_eq_of_lt (by omega)⟩
  | true =>
      rw [if_pos rfl]
      exact ⟨by omega, decide_eq_true (by omega), by omega⟩

/-- A pattern is its sign and its magnitude. -/
theorem eq_of_sign_of_magnitude {x y : Binary64} (hx : x.bits < 2 ^ 64) (hy : y.bits < 2 ^ 64)
    (hsign : x.isNegative = y.isNegative) (hmagnitude : x.magnitude = y.magnitude) : x = y := by
  obtain ⟨m⟩ := x
  obtain ⟨n⟩ := y
  have hbit : signBit = 2 ^ 63 := rfl
  rw [isNegative, isNegative, hbit, decide_eq_decide] at hsign
  rw [magnitude, magnitude, hbit] at hmagnitude
  congr 1
  dsimp only at *
  omega

theorem significand_mod_two (x : Binary64) : x.significand % 2 = x.magnitude % 2 := by
  rw [significand_eq, gridUnits, gridPlace]
  omega

end Binary64

/-- The number of the format that a sign and a magnitude are rounded to. It is infinite from half a
unit above the largest number on, and otherwise the nearest finite number, of two the one with the
even significand. The sign bit is kept. -/
structure RoundsTo (negative : Bool) (r : ℚ) (x : Binary64) : Prop where
  size : x.bits < 2 ^ 64
  sign : x.isNegative = negative
  isInfinite : 2 ^ 1024 - 2 ^ 970 ≤ r → x.isInfinite = true
  isFinite : r < 2 ^ 1024 - 2 ^ 970 → x.IsFinite
  nearest : r < 2 ^ 1024 - 2 ^ 970 → ∀ y : Binary64, y.IsFinite →
    |r - x.magnitudeValue| ≤ |r - y.magnitudeValue|
  even : r < 2 ^ 1024 - 2 ^ 970 → ∀ y : Binary64, y.IsFinite → y.magnitude ≠ x.magnitude →
    |r - x.magnitudeValue| = |r - y.magnitudeValue| → x.significand % 2 = 0

section

variable {negative : Bool} {r : ℚ} {x y : Binary64}

/-- The nearest point with a sign, or infinity if that is less, is what is rounded to. -/
theorem IsNearest.roundsTo {m : ℕ} (h : IsNearest r m) (negative : Bool) :
    RoundsTo negative r (.ofMagnitude negative (min infinityBits m)) := by
  obtain ⟨hsize, hsign, hmagnitude⟩ :=
    Binary64.ofMagnitude_spec negative (Nat.min_le_left infinityBits m)
  generalize Binary64.ofMagnitude negative (min infinityBits m) = x at hsize hsign hmagnitude
  have hfinite : r < 2 ^ 1024 - 2 ^ 970 → x.magnitude < infinityBits ∧ x.magnitude = m := by
    intro hr
    have hm : m < infinityBits :=
      Nat.lt_of_not_le fun hm => absurd hr (not_lt_of_ge (h.infinity_le_iff.1 hm))
    rw [hmagnitude, Nat.min_eq_right hm.le]
    exact ⟨hm, rfl⟩
  refine ⟨hsize, hsign, fun hr => ?_, fun hr => (hfinite hr).1, fun hr y _ => ?_,
    fun hr y _ hne hequal => ?_⟩
  · rw [Binary64.isInfinite, hmagnitude, Nat.min_eq_left (h.infinity_le_iff.2 hr)]
    exact decide_eq_true rfl
  · rw [← x.gridValue_magnitude, ← y.gridValue_magnitude, (hfinite hr).2]
    exact (h y.magnitude).1
  · rw [← x.gridValue_magnitude, ← y.gridValue_magnitude, (hfinite hr).2] at hequal
    rw [(hfinite hr).2] at hne
    rw [x.significand_mod_two, (hfinite hr).2]
    exact (h y.magnitude).2 hne hequal

/-- Between two nearest numbers there would be a nearer one. -/
theorem RoundsTo.magnitude_eq_of_le (hx : RoundsTo negative r x) (hy : RoundsTo negative r y)
    (hr : r < 2 ^ 1024 - 2 ^ 970) (hle : x.magnitude ≤ y.magnitude) :
    x.magnitude = y.magnitude := by
  rcases hle.eq_or_lt with heq | hlt
  · exact heq
  have hequal := le_antisymm (hx.nearest hr y (hy.isFinite hr)) (hy.nearest hr x (hx.isFinite hr))
  -- the pattern after the lower one is finite, as it is not above the higher one
  have hyfinite : y.magnitude < infinityBits := hy.isFinite hr
  have hroom : infinityBits < signBit := by decide
  have hnext : (Binary64.mk (x.magnitude + 1)).magnitude = x.magnitude + 1 :=
    Nat.mod_eq_of_lt (show x.magnitude + 1 < signBit by omega)
  have hnearest := hx.nearest hr ⟨x.magnitude + 1⟩ (by rw [Binary64.IsFinite, hnext]; omega)
  have hxeven := hx.even hr y (hy.isFinite hr) hlt.ne' hequal
  have hyeven := hy.even hr x (hx.isFinite hr) hlt.ne hequal.symm
  rw [Binary64.significand_mod_two] at hxeven hyeven
  simp only [← Binary64.gridValue_magnitude, hnext] at hequal hnearest
  exact eq_of_equally_near hle hequal (fun _ => ⟨hxeven, hyeven⟩) hnearest

/-- Only one number of the format is rounded to. -/
theorem RoundsTo.unique (hx : RoundsTo negative r x) (hy : RoundsTo negative r y) : x = y := by
  refine Binary64.eq_of_sign_of_magnitude hx.size hy.size (hx.sign.trans hy.sign.symm) ?_
  rcases le_or_gt (2 ^ 1024 - 2 ^ 970) r with hr | hr
  -- both are infinite, or else both are nearest
  · exact (of_decide_eq_true (hx.isInfinite hr)).trans (of_decide_eq_true (hy.isInfinite hr)).symm
  · rcases le_total x.magnitude y.magnitude with hle | hle
    · exact hx.magnitude_eq_of_le hy hr hle
    · exact (hy.magnitude_eq_of_le hx hr hle).symm

end

end Spruce
