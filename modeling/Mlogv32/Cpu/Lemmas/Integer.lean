import Mlogv32.Cpu.Lemmas.Encoding
import Mlogv32.Isa.Alu

/-!
# Results of the integer handlers

On words, every handler computes the word that the instruction is specified to compute.
-/

namespace Mlogv32.Cpu
open Mlog Isa

/-! ## Words as numbers -/

section

variable {x y : Word}

theorem toNat_range (x : Word) : (0 : Int) ≤ x.toNat ∧ (x.toNat : Int) < 2 ^ 32 := by
  have hx := x.isLt
  omega

theorem toInt_emod (x : Word) : x.toInt % 2 ^ 32 = x.toNat := by
  have hx := x.isLt
  rw [BitVec.toInt_eq_toNat_cond]
  split <;> omega

/-- A number and its residue are the same word. -/
theorem toNat_of_toInt {a : Int} (h : x.toInt % 2 ^ 32 = a % 2 ^ 32) : (x.toNat : Int) = a % 2 ^ 32 := by
  rw [← toInt_emod, h]

theorem truncatedRd_eq (a : Int) : truncatedRd a = a % 2 ^ 32 := opAnd_word a

theorem unsignedToSigned_eq (x : Word) : unsignedToSigned x.toNat = x.toInt := by
  have hx := x.isLt
  rw [unsignedToSigned, BitVec.toInt_eq_toNat_cond]
  split <;> split <;> omega

theorem opBool_eq (b : Bool) : opBool b = ((if b then 1 else 0 : Word).toNat : Int) := by
  cases b <;> rfl

/-! ## Additions and comparisons -/

theorem add_eq (x y : Word) : add x.toNat y.toNat = (x + y).toNat := by
  rw [add, addi, truncatedRd_eq, BitVec.toNat_add]
  push_cast
  rfl

theorem sub_eq (x y : Word) : sub x.toNat y.toNat = (x - y).toNat := by
  have hy := y.isLt
  rw [sub, add, addi, truncatedRd_eq, opMod_eq (by omega) (by decide), BitVec.toNat_sub]
  push_cast [hy.le]
  omega

theorem sltu_eq (x y : Word) : sltu x.toNat y.toNat = (RegOp.sltu.result x y).toNat := by
  rw [sltu, sltiu, opBool_eq]
  simp [RegOp.result, BitVec.ult]

theorem slt_eq (x y : Word) : slt x.toNat y.toNat = (RegOp.slt.result x y).toNat := by
  rw [slt, sltu, sltiu, opBool_eq, unsignedToSigned_eq, unsignedToSigned_eq]
  rfl

/-! ## Shifts -/

theorem shamt_eq (y : Word) : opMod y.toNat 32 = ((y.toNat % 32 : Nat) : Int) := by
  rw [opMod_eq (by omega) (by decide)]
  push_cast
  rfl

theorem srli_eq (x : Word) {k : Nat} (hk : k < 32) : srli x.toNat k = (x >>> k).toNat := by
  have hx := toNat_range x
  rw [srli, opShr_eq _ k (by omega) (by omega) (by omega), BitVec.toNat_ushiftRight,
    Nat.shiftRight_eq_div_pow]
  push_cast
  rfl

theorem slli_eq (x : Word) {k : Nat} (hk : k < 32) : slli x.toNat k = (x <<< k).toNat := by
  have hx := toNat_range x
  have hpow : (0 : Int) < 2 ^ (32 - k) := by positivity
  have hsplit : (2 : Int) ^ 32 = 2 ^ (32 - k) * 2 ^ k := by rw [← pow_add, Nat.sub_add_cancel hk.le]
  have hmod : opMod x.toNat (opPow 2 (32 - k)) = x.toNat % 2 ^ (32 - k) := by
    rw [opPow, show (32 - (k : Int)).toNat = 32 - k by omega]
    exact opMod_eq hx.1 hpow
  have hmul : (x.toNat : Int) % 2 ^ (32 - k) * 2 ^ k = x.toNat * 2 ^ k % 2 ^ 32 := by
    rw [hsplit, mul_comm, mul_comm _ ((2 : Int) ^ k), mul_comm _ ((2 : Int) ^ k),
      Int.mul_emod_mul_of_pos]
    positivity
  have hlo := Int.emod_nonneg ((x.toNat : Int) * 2 ^ k) (b := 2 ^ 32) (by decide)
  have hhi := Int.emod_lt_of_pos ((x.toNat : Int) * 2 ^ k) (b := 2 ^ 32) (by decide)
  rw [slli, hmod, opShl_eq _ k (by omega) (by omega) (by omega), hmul,
    BitVec.toNat_shiftLeft, Nat.shiftLeft_eq]
  push_cast
  rfl

theorem srai_eq (x : Word) {k : Nat} (hk : k < 32) : srai x.toNat k = (x.sshiftRight k).toNat := by
  have hx := toNat_range x
  have hpow : (0 : Int) < 2 ^ k := by positivity
  have hsplit : (2 : Int) ^ 32 = 2 ^ (32 - k) * 2 ^ k := by rw [← pow_add, Nat.sub_add_cancel hk.le]
  have hshr : opShr x.toNat k = x.toNat / 2 ^ k := opShr_eq _ k (by omega) (by omega) (by omega)
  have hlength : (2 : Int) ^ (32 - k) = 2 * 2 ^ (31 - k) := by
    rw [← pow_succ', show 31 - k + 1 = 32 - k by omega]
  have hlo : (0 : Int) ≤ x.toNat / 2 ^ k := Int.ediv_nonneg hx.1 hpow.le
  have hhi : (x.toNat : Int) / 2 ^ k < 2 ^ (31 - k + 1) := by
    rw [show 31 - k + 1 = 32 - k by omega]
    exact Int.ediv_lt_of_lt_mul hpow (hsplit ▸ hx.2)
  have hmask : opShl 1 (32 - (k : Int) - 1) = 2 ^ (31 - k) := by
    have hlt : (2 : Int) ^ (31 - k) < 2 ^ 63 := pow_lt_pow_right₀ (by decide) (by omega)
    have hpos : (0 : Int) < 2 ^ (31 - k) := by positivity
    have h := opShl_eq 1 (31 - k) (by omega) (by omega) (by omega)
    rw [one_mul] at h
    rw [← h]
    congr 1
    omega
  rw [srai, extendSignRd, truncatedRd_eq, hshr, hmask, opXor_sub _ (by omega) hlo hhi]
  refine (toNat_of_toInt ?_).symm
  have hhalf : (2 : Int) ^ 31 = 2 ^ (31 - k) * 2 ^ k := by rw [← pow_add, Nat.sub_add_cancel (by omega)]
  congr 1
  have hcast : ((2 ^ k : Nat) : Int) = 2 ^ k := by push_cast; rfl
  have hwidth : ((2 ^ 32 : Nat) : Int) = 2 ^ (32 - k) * 2 ^ k := by rw [← hsplit]; rfl
  rw [BitVec.toInt_sshiftRight, Int.shiftRight_eq_div_pow, BitVec.toInt_eq_toNat_cond, hcast]
  by_cases hneg : x.toNat < 2 ^ 31
  · have hsmall : (x.toNat : Int) / 2 ^ k < 2 ^ (31 - k) := Int.ediv_lt_of_lt_mul hpow (by omega)
    rw [if_pos (by omega), if_pos hsmall]
  · have hlarge : (2 : Int) ^ (31 - k) ≤ x.toNat / 2 ^ k := Int.le_ediv_of_mul_le hpow (by omega)
    rw [if_neg (by omega), if_neg (by omega), show 31 - k + 1 = 32 - k by omega]
    rw [hwidth, Int.sub_mul_ediv_right _ _ hpow.ne']

/-! ## Products -/

theorem mulDecomp_eq (x y : Word) :
    let m := mulDecomp x.toNat y.toNat
    ∃ xh xl yh yl : Int, (x.toNat : Int) = xh * 2 ^ 16 + xl ∧ (y.toNat : Int) = yh * 2 ^ 16 + yl ∧
      (0 ≤ xh ∧ xh < 2 ^ 16) ∧ (0 ≤ xl ∧ xl < 2 ^ 16) ∧ (0 ≤ yh ∧ yh < 2 ^ 16) ∧ (0 ≤ yl ∧ yl < 2 ^ 16) ∧
      m = { highHigh := xh * yh, highLow := xh * yl, lowHigh := xl * yh, lowLow := xl * yl } := by
  have hx := toNat_range x
  have hy := toNat_range y
  have hmask : ∀ a : Int, opAnd a 0xffff = a % 2 ^ 16 := fun a => opAnd_low a 16 (by decide)
  have hshr : ∀ w : Word, opShr w.toNat 16 = w.toNat / 2 ^ 16 := by
    intro w
    have hw := toNat_range w
    exact opShr_eq _ 16 (by decide) (by omega) (by omega)
  refine ⟨x.toNat / 2 ^ 16, x.toNat % 2 ^ 16, y.toNat / 2 ^ 16, y.toNat % 2 ^
    16, by omega, by omega, by omega,
    by omega, by omega, by omega, ?_⟩
  rw [mulDecomp, hshr, hshr, hmask, hmask]

theorem mul_half {a b : Int} (ha : 0 ≤ a ∧ a < 2 ^ 16) (hb : 0 ≤ b ∧ b < 2 ^ 16) :
    0 ≤ a * b ∧ a * b < 2 ^ 32 := by
  refine ⟨mul_nonneg ha.1 hb.1, ?_⟩
  nlinarith

theorem mul_eq (x y : Word) : mul x.toNat y.toNat = (x * y).toNat := by
  obtain ⟨xh, xl, yh, yl, hx, hy, hxh, hxl, hyh, hyl, hm⟩ := mulDecomp_eq x y
  have h1 := mul_half hxh hyl
  have h2 := mul_half hxl hyh
  have hshl : opShl (xh * yl + xl * yh) 16 = (xh * yl + xl * yh) * 2 ^ 16 :=
    opShl_eq _ 16 (by decide) (by omega) (by omega)
  rw [mul, hm, truncatedRd_eq, hshl, BitVec.toNat_mul]
  push_cast
  rw [hx, hy]
  have hprod : (xh * 2 ^ 16 + xl) * (yh * 2 ^ 16 + yl) =
      (xh * yl + xl * yh) * 2 ^ 16 + xl * yl + xh * yh * 2 ^ 32 := by ring
  rw [hprod]
  omega

/-- The carries between the partial products. -/
theorem upperProduct {hh hl lh ll : Int} :
    ((ll / 2 ^ 16 + lh + hl) / 2 ^ 16 + hh) = (hh * 2 ^ 32 + (hl + lh) * 2 ^ 16 + ll) / 2 ^ 32 := by
  omega

/-- The unsigned product, corrected for the negative operands. -/
theorem mulhSU_eq (x y : Word) (rs1Negative rs2Negative : Bool) :
    mulhSU x.toNat y.toNat rs1Negative rs2Negative =
      ((x.toNat * y.toNat : Int) / 2 ^ 32 - (if rs1Negative then (y.toNat : Int) else 0) -
        (if rs2Negative then (x.toNat : Int) else 0)) % 2 ^ 32 := by
  obtain ⟨xh, xl, yh, yl, hx, hy, hxh, hxl, hyh, hyl, hm⟩ := mulDecomp_eq x y
  have h1 := mul_half hxh hyl
  have h2 := mul_half hxl hyh
  have h3 := mul_half hxl hyl
  have hshr1 : opShr (xl * yl) 16 = xl * yl / 2 ^ 16 := opShr_eq _ 16 (by decide) (by omega) (by omega)
  have hshr2 : opShr (xl * yl / 2 ^ 16 + xl * yh + xh * yl) 16 =
      (xl * yl / 2 ^ 16 + xl * yh + xh * yl) / 2 ^ 16 :=
    opShr_eq _ 16 (by decide) (by omega) (by omega)
  have hprod : (x.toNat * y.toNat : Int) = xh * yh * 2 ^ 32 + (xh * yl + xl * yh) * 2 ^ 16 +
      xl * yl := by
    rw [hx, hy]
    ring
  rw [mulhSU, hm]
  dsimp only
  rw [hshr1, hshr2, upperProduct, ← hprod, truncatedRd_eq]
  cases rs1Negative <;> cases rs2Negative <;> simp

theorem toNat_ofInt_word (a : Int) : ((BitVec.ofInt 32 a).toNat : Int) = a % 2 ^ 32 := by
  rw [BitVec.toNat_ofInt, Int.toNat_of_nonneg (Int.emod_nonneg a (by decide))]
  rfl

theorem toInt_eq_sub (x : Word) :
    x.toInt = x.toNat - (if (x.toNat : Int) ≥ 0x80000000 then 1 else 0) * 2 ^ 32 := by
  have hx := x.isLt
  rw [BitVec.toInt_eq_toNat_cond]
  split <;> split <;> omega

theorem mulhu_eq (x y : Word) : mulhu x.toNat y.toNat = (RegOp.mulhu.result x y).toNat := by
  rw [mulhu, mulhSU_eq, RegOp.result, upperWord, toNat_ofInt_word]
  simp

theorem mulhsu_eq (x y : Word) : mulhsu x.toNat y.toNat = (RegOp.mulhsu.result x y).toNat := by
  rw [mulhsu, mulhSU_eq, RegOp.result, upperWord, toNat_ofInt_word, toInt_eq_sub x]
  by_cases hneg : (x.toNat : Int) ≥ 0x80000000
  · have hprod : ((x.toNat : Int) - 1 * 2 ^ 32) * y.toNat = x.toNat * y.toNat -
      y.toNat * 2 ^ 32 := by ring
    rw [if_pos hneg, hprod, Int.sub_mul_ediv_right _ _ (by decide)]
    simp [hneg]
  · simp [hneg]

/-- Both operands are negative in one case, and the correction for both is off by 2^32. -/
theorem mulh_eq (x y : Word) : mulh x.toNat y.toNat = (RegOp.mulh.result x y).toNat := by
  rw [mulh, mulhSU_eq, RegOp.result, upperWord, toNat_ofInt_word, toInt_eq_sub x, toInt_eq_sub y]
  by_cases hx : (x.toNat : Int) ≥ 0x80000000 <;> by_cases hy : (y.toNat : Int) ≥ 0x80000000
  · have hprod : ((x.toNat : Int) - 1 * 2 ^ 32) * (y.toNat - 1 * 2 ^ 32) =
        x.toNat * y.toNat - (y.toNat + x.toNat - 2 ^ 32) * 2 ^ 32 := by ring
    rw [if_pos hx, if_pos hy, hprod, Int.sub_mul_ediv_right _ _ (by decide), if_pos (decide_eq_true hx),
      if_pos (decide_eq_true hy)]
    omega
  · have hprod : ((x.toNat : Int) - 1 * 2 ^ 32) * (y.toNat - 0 * 2 ^ 32) =
        x.toNat * y.toNat - y.toNat * 2 ^ 32 := by ring
    rw [if_pos hx, if_neg hy, hprod, Int.sub_mul_ediv_right _ _ (by decide)]
    simp [hx, hy]
  · have hprod : ((x.toNat : Int) - 0 * 2 ^ 32) * (y.toNat - 1 * 2 ^ 32) =
        x.toNat * y.toNat - x.toNat * 2 ^ 32 := by ring
    rw [if_neg hx, if_pos hy, hprod, Int.sub_mul_ediv_right _ _ (by decide)]
    simp [hx, hy]
  · simp [hx, hy]

/-! ## Quotients and remainders -/

theorem toNat_eq_zero (y : Word) : (y.toNat : Int) = 0 ↔ y = 0 := by
  rw [Int.natCast_eq_zero, ← BitVec.toNat_inj]
  rfl

theorem toInt_eq_zero (y : Word) : y.toInt = 0 ↔ y = 0 := by
  rw [← BitVec.toInt_inj]
  rfl

theorem divu_eq (x y : Word) : divu x.toNat y.toNat = (RegOp.divu.result x y).toNat := by
  rw [divu, truncatedRd_eq, RegOp.result]
  by_cases hy : y = 0
  · rw [if_pos hy, if_pos ((toNat_eq_zero y).mpr hy)]
    rfl
  · have hle : x.toNat / y.toNat ≤ x.toNat := Nat.div_le_self _ _
    have hx := x.isLt
    rw [if_neg hy, if_neg (mt (toNat_eq_zero y).mp hy), BitVec.udiv_eq, BitVec.toNat_udiv,
      Int.tdiv_eq_ediv_of_nonneg (by omega), ← Int.natCast_ediv]
    exact Int.emod_eq_of_lt (Int.natCast_nonneg _) (by exact_mod_cast Nat.lt_of_le_of_lt hle hx)

theorem div_eq (x y : Word) : div x.toNat y.toNat = (RegOp.div.result x y).toNat := by
  rw [div, unsignedToSigned_eq, unsignedToSigned_eq, divu, truncatedRd_eq, RegOp.result]
  by_cases hy : y = 0
  · rw [if_pos hy, if_pos ((toInt_eq_zero y).mpr hy)]
    rfl
  · rw [if_neg hy, if_neg (mt (toInt_eq_zero y).mp hy)]
    refine (toNat_of_toInt ?_).symm
    have hmod := Int.bmod_emod (x := x.toInt.tdiv y.toInt) (m := 2 ^ 32)
    rw [BitVec.toInt_sdiv]
    exact hmod

theorem remu_eq (x y : Word) : remu x.toNat y.toNat = (RegOp.remu.result x y).toNat := by
  rw [remu, truncatedRd_eq, RegOp.result]
  by_cases hy : y = 0
  · rw [if_pos hy, if_pos ((toNat_eq_zero y).mpr hy)]
    exact Int.emod_eq_of_lt (toNat_range x).1 (toNat_range x).2
  · have hy0 : (y.toNat : Int) ≠ 0 := mt (toNat_eq_zero y).mp hy
    have hle := Nat.mod_le x.toNat y.toNat
    have hx := x.isLt
    rw [if_neg hy, if_neg hy0, opMod_eq (by omega) (by omega), BitVec.umod_eq,
      BitVec.toNat_umod, ← Int.natCast_emod]
    omega

theorem rem_eq (x y : Word) : rem x.toNat y.toNat = (RegOp.rem.result x y).toNat := by
  rw [rem, unsignedToSigned_eq, unsignedToSigned_eq, remu, truncatedRd_eq, RegOp.result]
  by_cases hy : y = 0
  · rw [if_pos hy, if_pos ((toInt_eq_zero y).mpr hy), toInt_emod]
  · rw [if_neg hy, if_neg (mt (toInt_eq_zero y).mp hy), opMod, if_neg (mt (toInt_eq_zero y).mp hy)]
    refine (toNat_of_toInt ?_).symm
    rw [BitVec.toInt_srem]

end

/-! ## All handlers -/

theorem aluRd_opReg (op : RegOp) {rd r1 r2 : Reg} (pc imm : Int) (x y : Word) :
    aluRd (handlerLabel (.opReg op rd r1 r2)) pc x.toNat y.toNat imm =
      some ((op.result x y).toNat : Int) := by
  cases op with
  | add => exact congrArg some (add_eq x y)
  | sub => exact congrArg some (sub_eq x y)
  | sll =>
      refine congrArg some ?_
      rw [sll, shamt_eq, slli_eq x (Nat.mod_lt _ (by decide))]
      rfl
  | slt => exact congrArg some (slt_eq x y)
  | sltu => exact congrArg some (sltu_eq x y)
  | xor => exact congrArg some (opXor_word32 x y)
  | srl =>
      refine congrArg some ?_
      rw [srl, shamt_eq, srli_eq x (Nat.mod_lt _ (by decide))]
      rfl
  | sra =>
      refine congrArg some ?_
      rw [sra, shamt_eq, srai_eq x (Nat.mod_lt _ (by decide))]
      rfl
  | or => exact congrArg some (opOr_word32 x y)
  | and => exact congrArg some (opAnd_word32 x y)
  | mul => exact congrArg some (mul_eq x y)
  | mulh => exact congrArg some (mulh_eq x y)
  | mulhsu => exact congrArg some (mulhsu_eq x y)
  | mulhu => exact congrArg some (mulhu_eq x y)
  | div => exact congrArg some (div_eq x y)
  | divu => exact congrArg some (divu_eq x y)
  | rem => exact congrArg some (rem_eq x y)
  | remu => exact congrArg some (remu_eq x y)

/-- The handlers of the immediate forms are those of the register forms with the immediate for
`rs2`. -/
theorem aluRd_opImm (op : ImmOp) {rd r1 : Reg} {n : BitVec 12} (pc rs2 : Int) (x v : Word) :
    aluRd (handlerLabel (.opImm op rd r1 n)) pc x.toNat rs2 v.toNat =
      some ((op.regOp.result x v).toNat : Int) := by
  cases op with
  | addi => exact @aluRd_opReg .add rd r1 0 pc 0 x v
  | slti => exact @aluRd_opReg .slt rd r1 0 pc 0 x v
  | sltiu => exact @aluRd_opReg .sltu rd r1 0 pc 0 x v
  | xori => exact @aluRd_opReg .xor rd r1 0 pc 0 x v
  | ori => exact @aluRd_opReg .or rd r1 0 pc 0 x v
  | andi => exact @aluRd_opReg .and rd r1 0 pc 0 x v

theorem aluRd_shiftImm (op : ShiftOp) {rd r1 : Reg} {shamt : BitVec 5} (pc rs2 : Int) (x : Word) :
    aluRd (handlerLabel (.shiftImm op rd r1 shamt)) pc x.toNat rs2 ((shamt.setWidth 32).toNat : Int) =
      some ((op.regOp.result x (shamt.setWidth 32)).toNat : Int) := by
  have hshamt := shamt.isLt
  have hmod : (shamt.setWidth 32).toNat % 32 = (shamt.setWidth 32).toNat := by
    rw [BitVec.toNat_setWidth]
    omega
  have hlt : (shamt.setWidth 32).toNat < 32 := by
    rw [BitVec.toNat_setWidth]
    omega
  cases op with
  | slli =>
      refine congrArg some ?_
      rw [slli_eq x hlt, ShiftOp.regOp, RegOp.result, hmod]
  | srli =>
      refine congrArg some ?_
      rw [srli_eq x hlt, ShiftOp.regOp, RegOp.result, hmod]
  | srai =>
      refine congrArg some ?_
      rw [srai_eq x hlt, ShiftOp.regOp, RegOp.result, hmod]

theorem branchTaken_eq (op : BranchOp) {r1 r2 : Reg} {n : BitVec 12} (x y : Word) :
    branchTaken (handlerLabel (.branch op r1 r2 n)) x.toNat y.toNat = some (op.holds x y) := by
  cases op with
  | beq => simp [handlerLabel, branchTaken, BranchOp.holds, BitVec.toNat_inj]
  | bne => simp [handlerLabel, branchTaken, BranchOp.holds, BitVec.toNat_inj]
  | blt => simp [handlerLabel, branchTaken, BranchOp.holds, unsignedToSigned_eq, BitVec.slt]
  | bge => simp [handlerLabel, branchTaken, BranchOp.holds, unsignedToSigned_eq,
      BitVec.slt, ← decide_not]
  | bltu => simp [handlerLabel, branchTaken, BranchOp.holds, BitVec.ult]
  | bgeu => simp [handlerLabel, branchTaken, BranchOp.holds, BitVec.ult, ← decide_not]

end Mlogv32.Cpu
