import Mlogv32.Cpu.Lemmas.Fetched

/-!
# Results of the integer instructions

From words, every integer instruction computes a word.
-/

namespace Mlogv32.Cpu
open Mlog

section

variable {a b : Int}

theorem truncatedRd_word (a : Int) : IsWord (truncatedRd a) := isWord_opAnd a (by decide)

theorem IsWord.opXor (ha : IsWord a) (hb : IsWord b) : IsWord (opXor a b) :=
  opXor_lt (by decide) ha.1 ha.2 hb.1 hb.2

theorem IsWord.opShr (ha : IsWord a) (b : Int) : IsWord (opShr a b) := by
  obtain ⟨h0, hlt⟩ := ha
  have hshr : Mlog.opShr a b = a / 2 ^ (b % 64).toNat := by
    have h := opShr_eq a (b % 64).toNat (by omega) (by omega) (by omega)
    rw [Int.toNat_of_nonneg (Int.emod_nonneg b (by decide))] at h
    rw [← h, Mlog.opShr, Mlog.opShr, Int.emod_emod_of_dvd b (dvd_refl 64)]
  have hle : a / 2 ^ (b % 64).toNat ≤ a := Int.ediv_le_self _ h0
  rw [hshr]
  exact ⟨Int.ediv_nonneg h0 (by positivity), by omega⟩

theorem opBool_word (b : Bool) : IsWord (opBool b) := by
  cases b <;> decide

theorem slli_word (ha : IsWord a) {b : Int} (h0 : 0 ≤ b) (h : b < 32) : IsWord (slli a b) := by
  obtain ⟨n, rfl⟩ := Int.eq_ofNat_of_zero_le h0
  have hpow : (0 : Int) < 2 ^ (32 - n) := by positivity
  have hmod : opMod a (opPow 2 (32 - n)) = a % 2 ^ (32 - n) := by
    rw [opPow, show (32 - (n : Int)).toNat = 32 - n by omega]
    exact opMod_eq ha.1 hpow
  have hmod0 := Int.emod_nonneg a hpow.ne'
  have hmodlt := Int.emod_lt_of_pos a hpow
  have hn : (0 : Int) < 2 ^ n := by positivity
  have hmul : a % 2 ^ (32 - n) * 2 ^ n < 2 ^ 32 := by
    calc a % 2 ^ (32 - n) * 2 ^ n < 2 ^ (32 - n) * 2 ^ n := mul_lt_mul_of_pos_right hmodlt hn
      _ = 2 ^ 32 := by rw [← pow_add, Nat.sub_add_cancel (by omega)]
  have hnonneg : 0 ≤ a % 2 ^ (32 - n) * 2 ^ n := mul_nonneg hmod0 hn.le
  rw [slli, hmod, opShl_eq _ n (by omega) (by omega) (by omega)]
  exact ⟨hnonneg, hmul⟩

theorem opMod_range {a : Int} (ha : 0 ≤ a) {b : Int} (hb : 0 < b) : 0 ≤ opMod a b ∧ opMod a b < b := by
  rw [opMod_eq ha hb]
  exact ⟨Int.emod_nonneg a hb.ne', Int.emod_lt_of_pos a hb⟩

end

theorem aluRd_word {label : Label} {pc rs1 rs2 imm rd : Int} (h1 : IsWord rs1) (h2 : IsWord rs2)
    (himm : IsWord imm) (hshift : label = .SLLI → imm < 32)
    (h : aluRd label pc rs1 rs2 imm = some rd) : IsWord rd := by
  cases label <;> simp only [aluRd, Option.some.injEq, reduceCtorEq] at h <;> subst h
  case LUI => exact himm
  case XORI => exact h1.opXor himm
  case XOR => exact h1.opXor h2
  case ORI => exact h1.opOr himm
  case OR => exact h1.opOr h2
  case ANDI => exact h1.opAnd imm
  case AND => exact h1.opAnd rs2
  case SLLI => exact slli_word h1 himm.1 (hshift rfl)
  case SLL => exact slli_word h1 (opMod_range h2.1 (by decide)).1 (opMod_range h2.1 (by decide)).2
  case SRLI => exact h1.opShr imm
  case SRL => exact h1.opShr _
  case SLTI => exact opBool_word _
  case SLTIU => exact opBool_word _
  case SLT => exact opBool_word _
  case SLTU => exact opBool_word _
  all_goals exact truncatedRd_word _

end Mlogv32.Cpu
