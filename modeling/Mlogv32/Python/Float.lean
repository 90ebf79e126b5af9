import Mlogv32.Logic.Double
import Mlogv32.Python.Builtins

/-!
# Division of integers in Python

`a / b` on integers is the double nearest to the quotient.
-/

namespace Mlogv32.Python
open Logic

/-- `a / b` for integers `a` and `b` with `0 ≤ a` and `0 < b`. -/
def trueDivide (a b : Int) : Except Exception ℚ :=
  if 2 ^ 1024 ≤ double (a / b) then
    .error (.overflowError "integer division result too large for a float")
  else .ok (double (a / b))

/-- Half of the unit of a quotient is less than its smallest fraction. -/
theorem ulp_div_lt {a b : Int} (ha : 0 < a) (hb : 0 < b) (ha' : a < 2 ^ 53) (hb' : b < 2 ^ 53) :
    ulp (a / b) / 2 < 1 / b := by
  have hbq : (0 : ℚ) < b := by exact_mod_cast hb
  have haq : (0 : ℚ) < a := by exact_mod_cast ha
  have haq' : (a : ℚ) < 2 ^ 53 := by exact_mod_cast ha'
  have hbq' : (b : ℚ) < 2 ^ 53 := by exact_mod_cast hb'
  rw [ulp]
  rcases max_choice (Int.log 2 ((a : ℚ) / b) - 52) (-1074) with hmax | hmax
  · have hlog : (2 : ℚ) ^ Int.log 2 ((a : ℚ) / b) ≤ a / b := by
      exact_mod_cast Int.zpow_log_le_self (by decide : 1 < 2) (div_pos haq hbq)
    rw [hmax, zpow_sub₀ (by norm_num), div_div, div_lt_div_iff₀ (by norm_num) hbq]
    rw [le_div_iff₀ hbq] at hlog
    norm_num at haq' ⊢
    linarith
  · rw [hmax, lt_div_iff₀ hbq]
    have hsmall : (2 : ℚ) ^ (-1074 : ℤ) ≤ 2 ^ (-53 : ℤ) :=
      zpow_le_zpow_right₀ (by norm_num) (by norm_num)
    calc (2 : ℚ) ^ (-1074 : ℤ) / 2 * b ≤ 2 ^ (-53 : ℤ) / 2 * 2 ^ 53 := by gcongr
      _ < 1 := by norm_num

/-- Below 2^53 the rounding does not reach the next integer, nor an integer below. -/
theorem ceil_double {a b : Int} (ha : 0 ≤ a) (hb : 0 < b) (ha' : a < 2 ^ 53) (hb' : a = 0 ∨ b < 2 ^ 53) :
    ⌈double (a / b)⌉ = ⌈(a / b : ℚ)⌉ := by
  rcases ha.eq_or_lt with rfl | ha
  · simp [double, roundHalfEven]
  have hb' : b < 2 ^ 53 := hb'.resolve_left ha.ne'
  have hbq : (0 : ℚ) < b := by exact_mod_cast hb
  have hb1 : (1 : ℚ) ≤ b := by exact_mod_cast hb
  have haq : (a : ℚ) < 2 ^ 53 := by exact_mod_cast ha'
  have hq : (0 : ℚ) < a / b := div_pos (by exact_mod_cast ha) hbq
  have hlt : (a / b : ℚ) < 2 ^ 53 := by
    rw [div_lt_iff₀ hbq]
    linarith
  obtain ⟨j, hj⟩ := exists_ulp_eq hq hlt
  have hulp := ulp_pos (a / b : ℚ)
  have hhalf := ulp_div_lt ha hb ha' hb'
  obtain ⟨hlo, hhi⟩ := Int.ceil_eq_iff.mp (rfl : ⌈(a / b : ℚ)⌉ = ⌈(a / b : ℚ)⌉)
  -- a quotient above an integer is above it by at least `1 / b`
  have hgap : (⌈(a / b : ℚ)⌉ - 1 : ℚ) + 1 / b ≤ a / b := by
    rw [lt_div_iff₀ hbq] at hlo
    have hint : (⌈(a / b : ℚ)⌉ - 1) * b + 1 ≤ a := by exact_mod_cast hlo
    rw [le_div_iff₀ hbq, add_mul, one_div_mul_cancel hbq.ne']
    exact_mod_cast hint
  rw [double, Int.ceil_eq_iff]
  refine ⟨?_, round_unit_le hulp hj hhi⟩
  have hlower : ((⌈(a / b : ℚ)⌉ - 1 : Int) : ℚ) + ulp (a / b) / 2 < a / b := by
    push_cast
    linarith
  exact_mod_cast lt_round_unit hulp hj hlower

end Mlogv32.Python
