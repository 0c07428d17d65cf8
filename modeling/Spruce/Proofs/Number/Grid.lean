import Mathlib.Algebra.Order.Field.Power
import Mathlib.Data.Rat.Cast.Order
import Mathlib.Tactic.FieldSimp
import Mathlib.Tactic.Linarith
import Mathlib.Tactic.NormNum
import Mathlib.Tactic.Positivity
import Mathlib.Tactic.Ring
import Spruce.Number.Binary64

set_option autoImplicit false

/-!
# The magnitudes of the format as a grid

Bit patterns without a sign stand for magnitudes that grow with the pattern
(`gridValue_strictMono`). The grid is even from one power of two to the next, so that a pattern may
be told by the power and a number of units, even by one unit too many (`gridValue_units`). Past the
largest number of the format it goes on as if there were more exponents, and the pattern of infinity
stands for the next power of two.

A magnitude between two neighbours of the grid is nearest to one of them (`IsNearest`), which
`roundHalfEven` finds.

Main definitions: `gridValue` and `IsNearest`.
-/

namespace Spruce

/-! ## The grid -/

/-- The place among the powers of two of the spacing around a pattern. -/
def gridPlace (m : ℕ) : ℕ := m / 2 ^ 52 - 1

/-- The magnitude of a pattern, in units of the spacing around it. -/
def gridUnits (m : ℕ) : ℕ := m - gridPlace m * 2 ^ 52

/-- The magnitude that a pattern stands for. -/
def gridValue (m : ℕ) : ℚ := gridUnits m * 2 ^ ((gridPlace m : ℤ) - 1074)

theorem exists_units (m : ℕ) :
    ∃ e u, m = e * 2 ^ 52 + u ∧ u < 2 ^ 53 ∧ (e = 0 ∨ 2 ^ 52 ≤ u) := by
  refine ⟨gridPlace m, gridUnits m, ?_⟩
  rw [gridUnits, gridPlace]
  omega

/-- A carry into the next power of two is already in the pattern. -/
theorem gridValue_units {e u : ℕ} (hu : u ≤ 2 ^ 53) (he : e = 0 ∨ 2 ^ 52 ≤ u) :
    gridValue (e * 2 ^ 52 + u) = u * 2 ^ ((e : ℤ) - 1074) := by
  rcases hu.lt_or_eq with hlt | rfl
  · have hplace : gridPlace (e * 2 ^ 52 + u) = e := by
      rw [gridPlace]
      omega
    rw [gridValue, gridUnits, hplace, Nat.add_sub_cancel_left]
  · have hplace : gridPlace (e * 2 ^ 52 + 2 ^ 53) = e + 1 := by
      rw [gridPlace]
      omega
    have hunits : gridUnits (e * 2 ^ 52 + 2 ^ 53) = 2 ^ 52 := by
      rw [gridUnits, hplace]
      omega
    have hpower : ((e + 1 : ℕ) : ℤ) - 1074 = (e : ℤ) - 1074 + 1 := by omega
    rw [gridValue, hplace, hunits, hpower, zpow_add_one₀ two_ne_zero]
    push_cast
    ring

theorem gridValue_strictMono : StrictMono gridValue := by
  refine strictMono_nat_of_lt_succ fun m => ?_
  obtain ⟨e, u, rfl, hu, he⟩ := exists_units m
  have hpos : (0 : ℚ) < 2 ^ ((e : ℤ) - 1074) := zpow_pos two_pos _
  rw [Nat.add_assoc, gridValue_units hu.le he, gridValue_units hu (by omega)]
  exact mul_lt_mul_of_pos_right (Nat.cast_lt.2 (Nat.lt_succ_self u)) hpos

theorem gridValue_zero : gridValue 0 = 0 := by
  simp [gridValue, gridUnits]

/-! ## The nearest point -/

/-- The grid has no point nearer to `x`, and another that is as near only if the pattern is even. -/
def IsNearest (x : ℚ) (m : ℕ) : Prop :=
  ∀ n, |x - gridValue m| ≤ |x - gridValue n| ∧
    (n ≠ m → |x - gridValue m| = |x - gridValue n| → m % 2 = 0)

theorem isNearest_zero : IsNearest 0 0 := by
  intro n
  rw [gridValue_zero, sub_self, abs_zero]
  exact ⟨abs_nonneg _, fun _ _ => rfl⟩

/-- Between two neighbours, the lower one is nearest if it is not farther than the upper one. -/
theorem isNearest_below {x : ℚ} {m : ℕ} (hlow : gridValue m ≤ x) (hhigh : x ≤ gridValue (m + 1))
    (hnear : x - gridValue m ≤ gridValue (m + 1) - x)
    (heven : x - gridValue m = gridValue (m + 1) - x → m % 2 = 0) : IsNearest x m := by
  intro n
  rw [abs_of_nonneg (sub_nonneg.2 hlow)]
  rcases lt_trichotomy n m with hn | rfl | hn
  · have hless := gridValue_strictMono hn
    rw [abs_of_nonneg (by linarith)]
    exact ⟨by linarith, fun _ h => absurd h (by linarith)⟩
  · exact ⟨le_abs_self _, fun hne => absurd rfl hne⟩
  · have hgrid := gridValue_strictMono.monotone (Nat.succ_le_of_lt hn)
    rw [Nat.succ_eq_add_one] at hgrid
    rw [abs_of_nonpos (by linarith)]
    exact ⟨by linarith, fun _ h => heven (by linarith)⟩

/-- The upper one is nearest if it is not farther than the lower one. -/
theorem isNearest_above {x : ℚ} {m : ℕ} (hlow : gridValue m ≤ x) (hhigh : x ≤ gridValue (m + 1))
    (hnear : gridValue (m + 1) - x ≤ x - gridValue m)
    (heven : gridValue (m + 1) - x = x - gridValue m → (m + 1) % 2 = 0) :
    IsNearest x (m + 1) := by
  intro n
  rw [abs_of_nonpos (sub_nonpos.2 hhigh)]
  rcases lt_trichotomy n (m + 1) with hn | rfl | hn
  · have hgrid := gridValue_strictMono.monotone (Nat.le_of_lt_succ hn)
    rw [abs_of_nonneg (by linarith)]
    exact ⟨by linarith, fun _ h => heven (by linarith)⟩
  · exact ⟨by linarith [neg_abs_le (x - gridValue (m + 1))], fun hne => absurd rfl hne⟩
  · have hless := gridValue_strictMono hn
    rw [abs_of_nonpos (by linarith)]
    exact ⟨by linarith, fun _ h => absurd h (by linarith)⟩

/-- Two even points that are equally near have a nearer one between them. -/
theorem eq_of_equally_near {x : ℚ} {m n : ℕ} (hle : m ≤ n)
    (hequal : |x - gridValue m| = |x - gridValue n|) (heven : m ≠ n → m % 2 = 0 ∧ n % 2 = 0)
    (hnearest : |x - gridValue m| ≤ |x - gridValue (m + 1)|) : m = n := by
  by_contra hne
  obtain ⟨hmeven, hneven⟩ := heven hne
  have hbetween : gridValue m < gridValue (m + 1) := gridValue_strictMono m.lt_succ_self
  have hbetween' : gridValue (m + 1) < gridValue n := gridValue_strictMono (by omega)
  -- being equally near to both, it is in the middle
  have hmiddle : x - gridValue m = gridValue n - x := by
    rcases abs_eq_abs.1 hequal with h | h <;> linarith
  rw [abs_of_pos (by linarith)] at hnearest
  exact absurd hnearest (not_le_of_gt (abs_lt.2 ⟨by linarith, by linarith⟩))

theorem IsNearest.unique {x : ℚ} {m n : ℕ} (hm : IsNearest x m) (hn : IsNearest x n) : m = n := by
  wlog hle : m ≤ n generalizing m n
  · exact (this hn hm (Nat.le_of_not_le hle)).symm
  have hequal : |x - gridValue m| = |x - gridValue n| := le_antisymm (hm n).1 (hn m).1
  refine eq_of_equally_near hle hequal (fun hne => ⟨?_, ?_⟩) (hm (m + 1)).1
  · exact (hm n).2 hne.symm hequal
  · exact (hn m).2 hne hequal.symm

/-! ## Rounding to whole units -/

/-- What is rounded down is at most half above the whole number, and what is rounded up at least
half; at exactly half, the answer is even. -/
theorem roundHalfEven_cases (num den : ℕ) :
    (roundHalfEven num den = num / den ∧ 2 * (num % den) ≤ den ∧
      (2 * (num % den) = den → num / den % 2 = 0)) ∨
    (roundHalfEven num den = num / den + 1 ∧ den ≤ 2 * (num % den) ∧
      (2 * (num % den) = den → (num / den + 1) % 2 = 0)) := by
  rw [roundHalfEven]
  split
  · exact .inl ⟨rfl, by omega, by omega⟩
  · split
    · exact .inr ⟨rfl, by omega, by omega⟩
    · rcases Nat.mod_two_eq_zero_or_one (num / den) with heven | hodd
      · exact .inl ⟨by omega, by omega, fun _ => heven⟩
      · exact .inr ⟨by omega, by omega, by omega⟩

section

variable {e w : ℕ} {t : ℚ}

/-- How far it is from between two points to the point below and to the point above. -/
theorem grid_distances (hw : w < 2 ^ 53) (he : e = 0 ∨ 2 ^ 52 ≤ w) (t : ℚ) :
    (w + t) * 2 ^ ((e : ℤ) - 1074) - gridValue (e * 2 ^ 52 + w) = t * 2 ^ ((e : ℤ) - 1074) ∧
      gridValue (e * 2 ^ 52 + w + 1) - (w + t) * 2 ^ ((e : ℤ) - 1074) =
        (1 - t) * 2 ^ ((e : ℤ) - 1074) := by
  rw [Nat.add_assoc, gridValue_units hw.le he, gridValue_units hw (by omega), Nat.cast_succ]
  constructor <;> ring

theorem grid_between (hw : w < 2 ^ 53) (he : e = 0 ∨ 2 ^ 52 ≤ w) (hnonneg : 0 ≤ t) (hone : t ≤ 1) :
    gridValue (e * 2 ^ 52 + w) ≤ (w + t) * 2 ^ ((e : ℤ) - 1074) ∧
      (w + t) * 2 ^ ((e : ℤ) - 1074) ≤ gridValue (e * 2 ^ 52 + w + 1) := by
  have hunit : (0 : ℚ) < 2 ^ ((e : ℤ) - 1074) := zpow_pos two_pos _
  obtain ⟨hbelow, habove⟩ := grid_distances hw he t
  constructor
  · rw [← sub_nonneg, hbelow]
    exact mul_nonneg hnonneg hunit.le
  · rw [← sub_nonneg, habove]
    exact mul_nonneg (sub_nonneg.2 hone) hunit.le

/-- At most half a unit above a point, that point is the nearest. -/
theorem isNearest_of_le_half (hw : w < 2 ^ 53) (he : e = 0 ∨ 2 ^ 52 ≤ w) (hnonneg : 0 ≤ t)
    (hhalf : 2 * t ≤ 1) (heven : 2 * t = 1 → w % 2 = 0) :
    IsNearest ((w + t) * 2 ^ ((e : ℤ) - 1074)) (e * 2 ^ 52 + w) := by
  have hunit : (0 : ℚ) < 2 ^ ((e : ℤ) - 1074) := zpow_pos two_pos _
  obtain ⟨hbelow, habove⟩ := grid_distances hw he t
  obtain ⟨hlow, hhigh⟩ := grid_between hw he hnonneg (by linarith)
  refine isNearest_below hlow hhigh ?_ fun h => ?_
  · rw [hbelow, habove]
    exact mul_le_mul_of_nonneg_right (by linarith) hunit.le
  · rw [hbelow, habove] at h
    have hw' := heven (by linarith [mul_right_cancel₀ hunit.ne' h])
    omega

/-- At least half a unit above a point, the next point is the nearest. -/
theorem isNearest_of_half_le (hw : w < 2 ^ 53) (he : e = 0 ∨ 2 ^ 52 ≤ w) (hone : t ≤ 1)
    (hhalf : 1 ≤ 2 * t) (heven : 2 * t = 1 → (w + 1) % 2 = 0) :
    IsNearest ((w + t) * 2 ^ ((e : ℤ) - 1074)) (e * 2 ^ 52 + w + 1) := by
  have hunit : (0 : ℚ) < 2 ^ ((e : ℤ) - 1074) := zpow_pos two_pos _
  obtain ⟨hbelow, habove⟩ := grid_distances hw he t
  obtain ⟨hlow, hhigh⟩ := grid_between hw he (by linarith) hone
  refine isNearest_above hlow hhigh ?_ fun h => ?_
  · rw [hbelow, habove]
    exact mul_le_mul_of_nonneg_right (by linarith) hunit.le
  · rw [hbelow, habove] at h
    have hw' := heven (by linarith [mul_right_cancel₀ hunit.ne' h])
    omega

end

/-- A number of units of a spacing, rounded to a whole number of them, gives the nearest point. -/
theorem isNearest_round {e num den : ℕ} (hden : 0 < den) (hless : (num / den : ℚ) < 2 ^ 53)
    (he : e = 0 ∨ (2 : ℚ) ^ 52 ≤ num / den) :
    IsNearest ((num / den : ℚ) * 2 ^ ((e : ℤ) - 1074))
      (e * 2 ^ 52 + roundHalfEven num den) := by
  have hden' : (0 : ℚ) < den := Nat.cast_pos.2 hden
  have hwhole : num / den < 2 ^ 53 := by
    rw [div_lt_iff₀ hden'] at hless
    exact Nat.div_lt_of_lt_mul (by exact_mod_cast (mul_comm (2 ^ 53 : ℚ) den) ▸ hless)
  have hwhole' : e = 0 ∨ 2 ^ 52 ≤ num / den := by
    refine he.imp_right fun hle => ?_
    rw [le_div_iff₀ hden'] at hle
    exact (Nat.le_div_iff_mul_le hden).2 (by exact_mod_cast hle)
  have hsplit : (num / den : ℚ) = (num / den : ℕ) + (num % den : ℕ) / den := by
    rw [div_eq_iff hden'.ne', add_mul, div_mul_cancel₀ _ hden'.ne']
    exact_mod_cast (Nat.div_add_mod' num den).symm
  have htwice : 2 * ((num % den : ℕ) / den : ℚ) = (2 * (num % den) : ℕ) / den := by
    push_cast
    ring
  rw [hsplit]
  -- rounding down leaves at most half a unit, rounding up at least half
  rcases roundHalfEven_cases num den with ⟨hround, hhalf, heven⟩ | ⟨hround, hhalf, heven⟩
  · rw [hround]
    refine isNearest_of_le_half hwhole hwhole' (by positivity) ?_ fun h => heven ?_
    · rw [htwice, div_le_one hden']
      exact Nat.cast_le.2 hhalf
    · rw [htwice, div_eq_one_iff_eq hden'.ne'] at h
      exact Nat.cast_injective h
  · rw [hround, ← Nat.add_assoc]
    refine isNearest_of_half_le hwhole hwhole' ?_ ?_ fun h => heven ?_
    · rw [div_le_one hden', Nat.cast_le]
      exact (Nat.mod_lt num hden).le
    · rw [htwice, one_le_div hden']
      exact Nat.cast_le.2 hhalf
    · rw [htwice, div_eq_one_iff_eq hden'.ne'] at h
      exact Nat.cast_injective h

end Spruce
