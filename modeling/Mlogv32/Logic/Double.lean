import Mathlib

/-!
# Doubles

A double is the rational number that it is. Numbers are rounded to the nearest double, and a sum of
rounded numbers is compared with the exact one.
-/

namespace Mlogv32.Logic

/-- The nearest integer, the even one of two. -/
def roundHalfEven (x : ℚ) : Int :=
  if x - ⌊x⌋ < 1 / 2 ∨ x - ⌊x⌋ = 1 / 2 ∧ ⌊x⌋ % 2 = 0 then ⌊x⌋ else ⌊x⌋ + 1

/-- The distance of the doubles around a positive number: 53 bits, and no bit below 2^-1074. -/
def ulp (x : ℚ) : ℚ := 2 ^ max (Int.log 2 x - 52) (-1074)

/-- The double nearest to a number that is not negative. -/
def double (x : ℚ) : ℚ := roundHalfEven (x / ulp x) * ulp x

/-! ## Rounding -/

theorem roundHalfEven_nonneg {x : ℚ} (h : 0 ≤ x) : 0 ≤ roundHalfEven x := by
  have hfloor := Int.floor_nonneg.mpr h
  rw [roundHalfEven]
  split_ifs
  · exact hfloor
  · exact hfloor.trans (Int.le_add_one le_rfl)

theorem roundHalfEven_le {x : ℚ} {n : Int} (h : x ≤ n) : roundHalfEven x ≤ n := by
  have hfloor : ⌊x⌋ ≤ n := Int.floor_le_iff.mpr (h.trans_lt (lt_add_one _))
  rw [roundHalfEven]
  split_ifs with hround
  · exact hfloor
  · refine Int.add_one_le_iff.mpr (lt_of_le_of_ne hfloor fun heq => hround (.inl ?_))
    have hx : x = ⌊x⌋ := le_antisymm (heq ▸ h) (Int.floor_le x)
    linarith

theorem le_roundHalfEven {x : ℚ} {n : Int} (h : n + 1 / 2 < x) : n + 1 ≤ roundHalfEven x := by
  have hle : n ≤ ⌊x⌋ := Int.le_floor.mpr (by linarith)
  rw [roundHalfEven]
  split_ifs with hround
  · refine Int.add_one_le_iff.mpr (lt_of_le_of_ne hle fun heq => ?_)
    subst heq
    rcases hround with hlt | ⟨heq, -⟩
    · linarith
    · linarith
  · exact add_le_add_left hle 1

theorem ulp_pos (x : ℚ) : 0 < ulp x := zpow_pos (by norm_num) _

theorem double_nonneg {x : ℚ} (h : 0 ≤ x) : 0 ≤ double x :=
  mul_nonneg (by exact_mod_cast roundHalfEven_nonneg (div_nonneg h (ulp_pos x).le)) (ulp_pos x).le

/-- Below 2^53 the unit is a fraction of one. -/
theorem exists_ulp_eq {x : ℚ} (hx : 0 < x) (hlt : x < 2 ^ 53) : ∃ j : Nat, ulp x * 2 ^ j = 1 := by
  have hlog : Int.log 2 x < 53 := (Int.lt_zpow_iff_log_lt (by decide) hx).mp (by exact_mod_cast hlt)
  refine ⟨(-max (Int.log 2 x - 52) (-1074)).toNat, ?_⟩
  have hle : max (Int.log 2 x - 52) (-1074) ≤ 0 := max_le (by omega) (by omega)
  rw [ulp, ← zpow_natCast, Int.toNat_of_nonneg (by omega), ← zpow_add₀ (by norm_num),
    add_neg_cancel, zpow_zero]

section
variable {x u : ℚ} {j : Nat} {n : Int}

theorem div_unit (hu : 0 < u) (hj : u * 2 ^ j = 1) : x / u = x * 2 ^ j := by
  rw [div_eq_iff hu.ne', mul_assoc, mul_comm (2 ^ j) u, hj, mul_one]

theorem round_unit_le (hu : 0 < u) (hj : u * 2 ^ j = 1) (h : x ≤ n) : roundHalfEven (x / u) * u ≤ n := by
  have hround : roundHalfEven (x / u) ≤ n * 2 ^ j := by
    refine roundHalfEven_le ?_
    rw [div_unit hu hj]
    push_cast
    gcongr
  calc (roundHalfEven (x / u) : ℚ) * u ≤ (n * 2 ^ j) * u := by
        gcongr
        exact_mod_cast hround
    _ = n := by rw [mul_assoc, mul_comm (2 ^ j) u, hj, mul_one]

theorem lt_round_unit (hu : 0 < u) (hj : u * 2 ^ j = 1) (h : n + u / 2 < x) :
    n < roundHalfEven (x / u) * u := by
  have hpow : (0 : ℚ) < 2 ^ j := by positivity
  have hround : n * 2 ^ j + 1 ≤ roundHalfEven (x / u) := by
    refine le_roundHalfEven ?_
    rw [div_unit hu hj]
    calc ((n * 2 ^ j : Int) : ℚ) + 1 / 2 = (n + u / 2) * 2 ^ j := by
          push_cast
          linear_combination (-1 / 2) * hj
      _ < x * 2 ^ j := by gcongr
  calc (n : ℚ) < n + u := lt_add_of_pos_right _ hu
    _ = (n * 2 ^ j + 1) * u := by linear_combination (-n : ℚ) * hj
    _ ≤ roundHalfEven (x / u) * u := by
        gcongr
        exact_mod_cast hround

end

/-! ## The whole part of an inexact number -/

end Mlogv32.Logic
