import Mlogv32.Cpu.Lemmas.Alu
import Mlogv32.Cpu.Lemmas.Integer
import Mlogv32.Cpu.Steps

/-!
# Sizes of the intermediate values

On words, no operation of an integer handler leaves the integers below 2^53.
-/

namespace Mlogv32.Cpu
open Mlog Isa

/-! ## The operations give the result -/

@[simp] theorem truncatedRdSteps_exact (rd : Int) : (truncatedRdSteps rd).exact = truncatedRd rd := rfl

@[simp] theorem unsignedToSignedSteps_exact (rs : Int) :
    (unsignedToSignedSteps rs).exact = unsignedToSigned rs := by
  rw [unsignedToSignedSteps, unsignedToSigned]
  split <;> rfl

theorem addiSteps_exact (rs1 imm : Int) : (addiSteps rs1 imm).exact = addi rs1 imm := by
  simp [addiSteps, addi]

theorem sltSteps_exact (rs1 rs2 : Int) : (sltSteps rs1 rs2).exact = slt rs1 rs2 := by
  simp [sltSteps, sltiuSteps, slt, sltu, sltiu]

theorem slliSteps_exact (rs1 imm : Int) : (slliSteps rs1 imm).exact = slli rs1 imm := by
  simp [slliSteps, slli]

theorem sraiSteps_exact (rs1 imm : Int) : (sraiSteps rs1 imm).exact = srai rs1 imm := by
  simp [sraiSteps, extendSignRdSteps, srai, extendSignRd]

theorem mulDecompSteps_exact (rs1 rs2 : Int) : (mulDecompSteps rs1 rs2).exact = mulDecomp rs1 rs2 := by
  simp [mulDecompSteps, mulDecomp]

theorem opBool_eq_one (b : Bool) : opBool b = 1 ↔ b = true := by cases b <;> decide

theorem mulhSUSteps_exact (rs1 rs2 : Int) (b1 b2 : Bool) :
    (mulhSUSteps rs1 rs2 (opBool b1) (opBool b2)).exact = mulhSU rs1 rs2 b1 b2 := by
  simp only [mulhSUSteps, mulhSU, mulhCorrectionSteps, opBool_eq_one,
    Steps.exact_bind, mulDecompSteps_exact, step_exact]
  cases b1 <;> cases b2 <;> rfl

theorem aluSteps_exact {label : Label} {pc rs1 rs2 imm : Int} {p : Steps Int}
    (h : aluSteps label pc rs1 rs2 imm = some p) : aluRd label pc rs1 rs2 imm = some p.exact := by
  cases label <;> simp only [aluSteps, Option.some.injEq, reduceCtorEq] at h <;> subst h <;>
    refine congrArg some ?_
  case LUI | SLTIU | SLTU | XORI | XOR | ORI | OR | ANDI | AND | SRLI => rfl
  case AUIPC => simp [auipcSteps, auipc]
  case ADDI | ADD => exact (addiSteps_exact _ _).symm
  case SLTI | SLT => exact (sltSteps_exact _ _).symm
  case SLLI => exact (slliSteps_exact _ _).symm
  case SRAI => exact (sraiSteps_exact _ _).symm
  case SUB => simp [subSteps, sub, add, addiSteps_exact]
  case SLL => simp [sllSteps, sll, slliSteps_exact]
  case SRL => simp [srlSteps, srl, srli]
  case SRA => simp [sraSteps, sra, sraiSteps_exact]
  case MUL => simp [mulSteps, mul, mulDecompSteps_exact]
  case MULH => simp [mulhSteps, mulh, mulhSUSteps_exact]
  case MULHSU =>
    refine (mulhSUSteps_exact rs1 rs2 _ false).symm.trans ?_
    rw [mulhsuSteps, Steps.exact_bind, step_exact]
    rfl
  case MULHU => exact (mulhSUSteps_exact rs1 rs2 false false).symm

/-! ## Sizes -/

section

variable {a b : Int}

theorem small_of_word (h : IsWord a) : |a| < 2 ^ 53 := by
  obtain ⟨h0, hlt⟩ := h
  rw [abs_of_nonneg h0]
  omega

theorem isWord_toNat (x : Word) : IsWord x.toNat := toNat_range x

theorem truncatedRdSteps_below (rd : Int) : (truncatedRdSteps rd).Below (2 ^ 53) :=
  step_below (small_of_word (truncatedRd_word rd))

theorem unsignedToSignedSteps_below (h : IsWord a) : (unsignedToSignedSteps a).Below (2 ^ 53) := by
  obtain ⟨h0, hlt⟩ := h
  rw [unsignedToSignedSteps]
  split
  · exact Steps.below_pure a
  · exact step_below (abs_lt.mpr (by omega))

theorem addiSteps_below (ha : IsWord a) (hb : IsWord b) : (addiSteps a b).Below (2 ^ 53) := by
  obtain ⟨ha0, ha⟩ := ha
  obtain ⟨hb0, hb⟩ := hb
  exact (step_below (abs_lt.mpr (by omega))).bind (truncatedRdSteps_below _)

theorem sltiuSteps_below (a b : Int) : (sltiuSteps a b).Below (2 ^ 53) :=
  step_below (small_of_word (opBool_word _))

theorem sltSteps_below (ha : IsWord a) (hb : IsWord b) : (sltSteps a b).Below (2 ^ 53) :=
  (unsignedToSignedSteps_below ha).bind ((unsignedToSignedSteps_below hb).bind (sltiuSteps_below _ _))

theorem subSteps_below (ha : IsWord a) (hb : IsWord b) : (subSteps a b).Below (2 ^ 53) := by
  obtain ⟨hb0, hb⟩ := hb
  have hmod : IsWord (opMod (0x100000000 - b) 0x100000000) := opMod_range (by omega) (by decide)
  refine (step_below (abs_lt.mpr (by omega))).bind ((step_below (small_of_word hmod)).bind ?_)
  exact addiSteps_below ha hmod

theorem shamt_range (hb : IsWord b) : 0 ≤ opMod b 32 ∧ opMod b 32 < 32 := opMod_range hb.1 (by decide)

theorem shamtStep_below (hb : IsWord b) : (step (opMod b 32)).Below (2 ^ 53) := by
  obtain ⟨h0, hlt⟩ := shamt_range hb
  exact step_below (abs_lt.mpr (by omega))

theorem slliSteps_below (ha : IsWord a) (hb : 0 ≤ b ∧ b < 32) : (slliSteps a b).Below (2 ^ 53) := by
  have hpow : opPow 2 (32 - b) ≤ 2 ^ 32 := pow_le_pow_right₀ (by decide) (by omega)
  have hpos : 0 < opPow 2 (32 - b) := by rw [opPow]; positivity
  have hmod := opMod_range ha.1 hpos
  have hword : IsWord (opShl (opMod a (opPow 2 (32 - b))) b) := slli_word ha hb.1 hb.2
  refine (step_below (abs_lt.mpr (by omega))).bind ((step_below (abs_lt.mpr ?_)).bind
    ((step_below (abs_lt.mpr ?_)).bind (step_below (small_of_word hword)))) <;>
    simp only [step_exact] <;> omega

theorem extendSignRdSteps_below (ha : IsWord a) (hb : 1 ≤ b ∧ b ≤ 32) :
    (extendSignRdSteps a b).Below (2 ^ 53) := by
  have hmask : IsWord (opShl 1 (b - 1)) := by
    obtain ⟨k, hk⟩ := Int.eq_ofNat_of_zero_le (a := b - 1) (by omega)
    have hpow : (2 : Int) ^ k ≤ 2 ^ 31 := pow_le_pow_right₀ (by decide) (by omega)
    have hpos : (0 : Int) < 2 ^ k := by positivity
    have hshl := opShl_eq 1 k (by omega) (by omega) (by omega)
    rw [one_mul] at hshl
    rw [hk]
    exact hshl ▸ ⟨hpos.le, by omega⟩
  have hxor : IsWord (opXor a (opShl 1 (b - 1))) := ha.opXor hmask
  refine (step_below (abs_lt.mpr (by omega))).bind ((step_below (small_of_word hmask)).bind
    ((step_below (small_of_word hxor)).bind
      ((step_below (abs_lt.mpr ?_)).bind (truncatedRdSteps_below _))))
  obtain ⟨h1, h2⟩ := hmask
  obtain ⟨h3, h4⟩ := hxor
  simp only [step_exact]
  omega

theorem sraiSteps_below (ha : IsWord a) (hb : 0 ≤ b ∧ b < 32) : (sraiSteps a b).Below (2 ^ 53) := by
  have hshr := ha.opShr b
  refine (step_below (small_of_word hshr)).bind ((step_below (abs_lt.mpr (by omega))).bind ?_)
  exact extendSignRdSteps_below hshr ⟨by simp only [step_exact]; omega, by simp only [step_exact]; omega⟩

/-! ### Products -/

theorem shr_half (ha : IsWord a) : 0 ≤ opShr a 16 ∧ opShr a 16 < 2 ^ 16 := by
  obtain ⟨h0, hlt⟩ := ha
  have hshr : opShr a 16 = a / 2 ^ 16 := opShr_eq a 16 (by decide) (by omega) (by omega)
  rw [hshr]
  omega

theorem and_half (a : Int) : 0 ≤ opAnd a 0xffff ∧ opAnd a 0xffff < 2 ^ 16 :=
  opAnd_lt (by decide) (by decide) (by decide)

theorem small_of_half (h : 0 ≤ a ∧ a < 2 ^ 16) : |a| < 2 ^ 53 := small_of_word ⟨h.1, by omega⟩

/-- The partial products are words. -/
structure MulDecomp.Words (m : MulDecomp) : Prop where
  highHigh : IsWord m.highHigh
  highLow : IsWord m.highLow
  lowHigh : IsWord m.lowHigh
  lowLow : IsWord m.lowLow

theorem mulDecomp_words (ha : IsWord a) (hb : IsWord b) : (mulDecomp a b).Words where
  highHigh := mul_half (shr_half ha) (shr_half hb)
  highLow := mul_half (shr_half ha) (and_half b)
  lowHigh := mul_half (and_half a) (shr_half hb)
  lowLow := mul_half (and_half a) (and_half b)

theorem mulDecompSteps_below (ha : IsWord a) (hb : IsWord b) : (mulDecompSteps a b).Below (2 ^ 53) := by
  have hwords := mulDecomp_words ha hb
  exact (step_below (small_of_half (shr_half ha))).bind <|
    (step_below (small_of_half (and_half a))).bind <|
    (step_below (small_of_half (shr_half hb))).bind <|
    (step_below (small_of_half (and_half b))).bind <|
    (step_below (small_of_word hwords.highHigh)).bind <|
    (step_below (small_of_word hwords.highLow)).bind <|
    (step_below (small_of_word hwords.lowHigh)).bind <|
    (step_below (small_of_word hwords.lowLow)).bind (Steps.below_pure _)

theorem mulSteps_below (ha : IsWord a) (hb : IsWord b) : (mulSteps a b).Below (2 ^ 53) := by
  refine (mulDecompSteps_below ha hb).bind ?_
  rw [mulDecompSteps_exact]
  obtain ⟨-, ⟨h1, h2⟩, ⟨h3, h4⟩, ⟨h5, h6⟩⟩ := mulDecomp_words ha hb
  generalize mulDecomp a b = m at *
  have hshl : opShl (m.highLow + m.lowHigh) 16 = (m.highLow + m.lowHigh) * 2 ^ 16 :=
    opShl_eq _ 16 (by decide) (by omega) (by omega)
  refine (step_below (abs_lt.mpr (by omega))).bind ((step_below ?_).bind ((step_below ?_).bind
    (truncatedRdSteps_below _))) <;>
    rw [step_exact] <;> try rw [step_exact]
  all_goals
    rw [hshl, abs_lt]
    omega

theorem mulhCorrectionSteps_below {x : Int} (hx : -2 ^ 40 < x ∧ x < 2 ^ 40) (hb : IsWord b) (n : Int) :
    (mulhCorrectionSteps x b n).Below (2 ^ 53) ∧
      x - 2 ^ 32 < (mulhCorrectionSteps x b n).exact ∧ (mulhCorrectionSteps x b n).exact ≤ x := by
  obtain ⟨hb0, hb⟩ := hb
  rw [mulhCorrectionSteps]
  split
  · rw [step_exact]
    exact ⟨step_below (abs_lt.mpr (by omega)), by omega, by omega⟩
  · rw [Steps.exact_pure]
    exact ⟨Steps.below_pure x, by omega, by omega⟩

theorem mulhSUSteps_below (ha : IsWord a) (hb : IsWord b) (n1 n2 : Int) :
    (mulhSUSteps a b n1 n2).Below (2 ^ 53) := by
  refine (mulDecompSteps_below ha hb).bind ?_
  rw [mulDecompSteps_exact]
  obtain ⟨⟨h7, h8⟩, ⟨h1, h2⟩, ⟨h3, h4⟩, ⟨h5, h6⟩⟩ := mulDecomp_words ha hb
  generalize mulDecomp a b = m at *
  have hshr1 : opShr m.lowLow 16 = m.lowLow / 2 ^ 16 := opShr_eq _ 16 (by decide) (by omega) (by omega)
  have hshr2 : opShr (m.lowLow / 2 ^ 16 + m.lowHigh + m.highLow) 16 =
      (m.lowLow / 2 ^ 16 + m.lowHigh + m.highLow) / 2 ^ 16 :=
        opShr_eq _ 16 (by decide) (by omega) (by omega)
  refine (step_below ?_).bind ((step_below ?_).bind ((step_below ?_).bind ((step_below ?_).bind
    ((step_below ?_).bind ?_)))) <;> simp only [step_exact, hshr1, hshr2]
  any_goals
    rw [abs_lt]
    omega
  obtain ⟨hbelow1, hlo1, hhi1⟩ := mulhCorrectionSteps_below
    (x := (m.lowLow / 2 ^ 16 + m.lowHigh + m.highLow) / 2 ^ 16 + m.highHigh) (by omega) hb n1
  refine hbelow1.bind ?_
  exact (mulhCorrectionSteps_below (by omega) ha n2).1.bind (truncatedRdSteps_below _)

theorem mulhSteps_below (ha : IsWord a) (hb : IsWord b) : (mulhSteps a b).Below (2 ^ 53) :=
  (step_below (small_of_word (opBool_word _))).bind <|
    (step_below (small_of_word (opBool_word _))).bind (mulhSUSteps_below ha hb _ _)

theorem mulhsuSteps_below (ha : IsWord a) (hb : IsWord b) : (mulhsuSteps a b).Below (2 ^ 53) :=
  (step_below (small_of_word (opBool_word _))).bind (mulhSUSteps_below ha hb _ 0)

end

/-! ## All handlers -/

/-- `pc`, the operands and the immediate of an integer instruction are words, and the immediate of a
shift is a shift amount. -/
theorem aluSteps_below {label : Label} {pc rs1 rs2 imm : Int} {p : Steps Int}
    (hpc : IsWord pc) (h1 : IsWord rs1) (h2 : IsWord rs2) (himm : IsWord imm)
    (hshift : label ∈ [.SLLI, .SRAI] → imm < 32) (h : aluSteps label pc rs1 rs2 imm = some p) :
    p.Below (2 ^ 53) := by
  cases label <;> simp only [aluSteps, Option.some.injEq, reduceCtorEq] at h <;> subst h
  case LUI => exact step_below (small_of_word himm)
  case AUIPC => exact addiSteps_below himm hpc
  case ADDI => exact addiSteps_below h1 himm
  case ADD => exact addiSteps_below h1 h2
  case SUB => exact subSteps_below h1 h2
  case SLTI => exact sltSteps_below h1 himm
  case SLT => exact sltSteps_below h1 h2
  case SLTIU => exact sltiuSteps_below rs1 imm
  case SLTU => exact sltiuSteps_below rs1 rs2
  case XORI => exact step_below (small_of_word (h1.opXor himm))
  case XOR => exact step_below (small_of_word (h1.opXor h2))
  case ORI => exact step_below (small_of_word (h1.opOr himm))
  case OR => exact step_below (small_of_word (h1.opOr h2))
  case ANDI => exact step_below (small_of_word (h1.opAnd imm))
  case AND => exact step_below (small_of_word (h1.opAnd rs2))
  case SLLI => exact slliSteps_below h1 ⟨himm.1, hshift (by decide)⟩
  case SLL => exact (shamtStep_below h2).bind (slliSteps_below h1 (shamt_range h2))
  case SRLI => exact step_below (small_of_word (h1.opShr imm))
  case SRL => exact (shamtStep_below h2).bind (step_below (small_of_word (h1.opShr _)))
  case SRAI => exact sraiSteps_below h1 ⟨himm.1, hshift (by decide)⟩
  case SRA => exact (shamtStep_below h2).bind (sraiSteps_below h1 (shamt_range h2))
  case MUL => exact mulSteps_below h1 h2
  case MULH => exact mulhSteps_below h1 h2
  case MULHSU => exact mulhsuSteps_below h1 h2
  case MULHU => exact mulhSUSteps_below h1 h2 0 0

theorem branchSteps_below {label : Label} {rs1 rs2 : Int} {p : Steps (Int × Int)} (h1 : IsWord rs1)
    (h2 : IsWord rs2) (h : branchSteps label rs1 rs2 = some p) : p.Below (2 ^ 53) := by
  cases label <;> simp only [branchSteps, Option.some.injEq, reduceCtorEq] at h <;> subst h
  case BLT | BGE =>
    exact (unsignedToSignedSteps_below h1).bind
      ((unsignedToSignedSteps_below h2).bind (Steps.below_pure _))
  all_goals exact Steps.below_pure _

end Mlogv32.Cpu
