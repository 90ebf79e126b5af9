import Mlogv32.Cpu.Machine
import Mlogv32.Cpu.Lemmas.Decode

/-!
# Fetched instructions

What holds of the variables that `main` has set at the dispatch, whichever path fetched the word.
-/

namespace Mlogv32.Cpu
open Mlog Isa

/-- An integer that a register of the architecture holds. -/
def IsWord (x : Int) : Prop := 0 ≤ x ∧ x < 2 ^ 32

instance (x : Int) : Decidable (IsWord x) := inferInstanceAs (Decidable (_ ∧ _))

section

variable {a b : Int}

theorem isWord_opAnd (a : Int) (hb : IsWord b) : IsWord (opAnd a b) :=
  opAnd_lt (by decide) hb.1 hb.2

theorem IsWord.opAnd (ha : IsWord a) (b : Int) : IsWord (opAnd a b) := by
  rw [opAnd_comm]
  exact isWord_opAnd b ha

theorem IsWord.opOr (ha : IsWord a) (hb : IsWord b) : IsWord (opOr a b) :=
  opOr_lt (by decide) ha.1 ha.2 hb.1 hb.2

theorem IsWord.le_opOr (ha : IsWord a) (hb : IsWord b) : b ≤ Mlog.opOr a b := by
  obtain ⟨m, rfl⟩ := Int.eq_ofNat_of_zero_le ha.1
  obtain ⟨n, rfl⟩ := Int.eq_ofNat_of_zero_le hb.1
  have hm := ha.2
  have hn := hb.2
  have hor : (long m ||| long n).toNat = m ||| n := by
    rw [BitVec.toNat_or, long_natCast (by omega), long_natCast (by omega)]
  have hlt : m ||| n < 2 ^ 32 := Nat.or_lt_two_pow (by omega) (by omega)
  rw [Mlog.opOr, toInt_eq_toNat (by omega), hor]
  exact_mod_cast Nat.right_le_or

end

/-- The op_ids of PRIV and of the CSR instructions. Between them is AUIPC. -/
def isSystem (opId : Int) : Bool := -12 ≤ opId && opId ≤ -5 && opId ≠ -8

/-- A bound of the immediate: the CSR number of SYSTEM, and the shift amount of SLLI. -/
def immLimit (opId : Int) : Int := if isSystem opId then 4096 else if opId = -3 then 32 else 2 ^ 32

theorem immLimit_eq {opId : Int} (h : ¬(-12 ≤ opId ∧ opId ≤ -5 ∧ opId ≠ -8)) (h' : opId ≠ -3) :
    immLimit opId = 2 ^ 32 := by
  have hs : isSystem opId = false := by
    simp only [isSystem, ne_eq, Bool.and_eq_false_iff, decide_eq_false_iff_not]
    omega
  rw [immLimit, hs, if_neg Bool.false_ne_true, if_neg h']

structure Fetched.Valid (d : Fetched) : Prop where
  opId_ge : -64 ≤ d.opId
  opId_le : d.opId ≤ 63
  imm : IsWord d.imm
  rdId : 0 ≤ d.rdId ∧ d.rdId < 32
  rs1Id : 0 ≤ d.rs1Id ∧ d.rs1Id < 32
  rs2Id : 0 ≤ d.rs2Id ∧ d.rs2Id < 32
  immLimit : d.imm < immLimit d.opId

/-! ## Limits of immediates -/

theorem endDecode_immLimit {opId imm : Int} (result : Int)
    (h : immLimit opId = 2 ^ 32 ∨ (0 ≤ imm ∧ imm < immLimit opId)) :
    (endDecode opId imm result).imm < immLimit (endDecode opId imm result).opId := by
  have himm : (endDecode opId imm result).imm = imm % 2 ^ 32 := opAnd_word imm
  have hopId : (endDecode opId imm result).opId = opId := rfl
  rw [himm, hopId]
  rcases h with h | ⟨h0, h⟩
  · rw [h]
    exact Int.emod_lt_of_pos _ (by decide)
  · have hle : imm % 2 ^ 32 ≤ imm := by omega
    exact lt_of_le_of_lt hle h

theorem decodeAt_immLimit (label : Option Label) (f : Fields) (h3 : 0 ≤ f.funct3 ∧ f.funct3 < 8)
    (h7 : 0 ≤ f.funct7 ∧ f.funct7 < 128)
    (h12 : 0 ≤ f.funct12 - f.funct7 * 32 ∧ f.funct12 - f.funct7 * 32 < 32) :
    (decodeAt label f).imm < immLimit (decodeAt label f).opId := by
  have hne {opId imm result : Int} (h : ¬(-12 ≤ opId ∧ opId ≤ -5 ∧ opId ≠ -8)) (h' : opId ≠ -3) :
      (endDecode opId imm result).imm < immLimit (endDecode opId imm result).opId :=
    endDecode_immLimit result (Or.inl (immLimit_eq h h'))
  have hshr : opShr f.funct7 2 = f.funct7 / 4 := opShr_eq _ 2 (by decide) (by omega) (by omega)
  have hshr' : opShr (f.funct7 / 4) 2 = f.funct7 / 4 / 4 :=
    opShr_eq _ 2 (by decide) (by omega) (by omega)
  unfold decodeAt
  split
  case h_4 =>
    simp only [decodeOP_IMM, decodeIType, decodeITypeNoExtendSign]
    split_ifs
    · simp only [decodeSRLI_SRAI, decodeITypeNoExtendSign, decodeIllegalInstruction]
      split_ifs
      all_goals exact hne (by omega) (by omega)
    · simp only [decodeSLLI, decodeITypeNoExtendSign, decodeIllegalInstruction]
      split_ifs
      · have hlimit : immLimit (-3) = 32 := rfl
        exact endDecode_immLimit _ (Or.inr ⟨by omega, by omega⟩)
      · exact hne (by decide) (by decide)
    · exact hne (by omega) (by omega)
  case h_7 =>
    simp only [decodeAMO, hshr, hshr', decodeIllegalInstruction]
    split_ifs
    all_goals exact hne (by omega) (by omega)
  case h_11 => exact hne (by decide) (by decide)
  case h_12 => exact hne (by decide) (by decide)
  case h_13 =>
    simp only [decodeSYSTEM, decodeITypeNoExtendSign, decodeIllegalInstruction]
    split_ifs with h4
    · have hlimit : immLimit (-12 + f.funct3) = 4096 := by
        have hs : isSystem (-12 + f.funct3) = true := by
          simp only [isSystem, ne_eq, Bool.and_eq_true, decide_eq_true_eq]
          omega
        rw [immLimit, if_pos hs]
      exact endDecode_immLimit _ (Or.inr ⟨by omega, by omega⟩)
    · exact hne (by decide) (by decide)
  case h_14 => exact hne (by decide) (by decide)
  all_goals
    simp only [decodeLOAD, decodeCustom0, decodeMISC_MEM, decodeLUI_AUIPC,
      decodeSTORE, decodeOP, decodeBRANCH,
      decodeIType, decodeITypeNoExtendSign, decodeIllegalInstruction]
    split_ifs
    all_goals exact hne (by omega) (by omega)

theorem decode_immLimit (w : Word) (imm : Int) :
    (decode w.toNat imm).imm < immLimit (decode w.toNat imm).opId := by
  rcases word_cases w with ⟨funct7, rs2, rs1, funct3, rd, op, rfl⟩ | hlow
  · rw [decode_encodeR]
    refine decodeAt_immLimit _ _ (wordFields_funct3 ..) (wordFields_funct7 ..) ?_
    have h2 := rs2.isLt
    change 0 ≤ (funct7.toNat : Int) * 32 + rs2.toNat - (funct7.toNat : Int) * 32 ∧
      (funct7.toNat : Int) * 32 + rs2.toNat - (funct7.toNat : Int) * 32 < 32
    omega
  · rw [decode_compressed (by omega)]
    exact endDecode_immLimit _ (Or.inl (immLimit_eq (by decide) (by decide)))

/-! ## The two paths -/

theorem unpackRegisters_range (opId imm result : Int) :
    (0 ≤ (unpackRegisters opId imm result).rdId ∧ (unpackRegisters opId imm result).rdId < 32) ∧
    (0 ≤ (unpackRegisters opId imm result).rs1Id ∧ (unpackRegisters opId imm result).rs1Id < 32) ∧
    (0 ≤ (unpackRegisters opId imm result).rs2Id ∧ (unpackRegisters opId imm result).rs2Id < 32) :=
  ⟨opAnd_lt (k := 5) (by decide) (by decide) (by decide),
    opAnd_lt (k := 5) (by decide) (by decide) (by decide),
    opAnd_lt (k := 5) (by decide) (by decide) (by decide)⟩

theorem slowFetch_valid (w : Word) (imm : Int) : (slowFetch w.toNat imm).Valid := by
  have hwf := decode_wellFormed w imm
  obtain ⟨hrd, hrs1, hrs2⟩ := unpackRegisters_range (decode w.toNat imm).opId (decode w.toNat imm).imm
    (decode w.toNat imm).result
  exact ⟨hwf.opId_ge, hwf.opId_le, ⟨hwf.imm_nonneg, hwf.imm_lt⟩, hrd, hrs1, hrs2, decode_immLimit w imm⟩

/-- What an icache slot holds: nothing, or the payload of a decoded word. -/
def SlotOk (v : Value) : Prop :=
  v = .null ∨ ∃ (w : Word) (imm : Int), v = .num (decode w.toNat imm).payload

theorem readIcache_valid {v : Value} (h : SlotOk v) : (readIcache v.toNum).Valid := by
  obtain ⟨hrd, hrs1, hrs2⟩ := unpackRegisters_range (opShr v.toNum 47) (opAnd v.toNum 0xffffffff) v.toNum
  have himm : IsWord (opAnd v.toNum 0xffffffff) := opAnd_lt (k := 32) (by decide) (by decide) (by decide)
  rcases h with rfl | ⟨w, imm, rfl⟩
  · exact ⟨by decide, by decide, himm, hrd, hrs1, hrs2, by decide⟩
  · have hwf := decode_wellFormed w imm
    have hop : (readIcache (decode w.toNat imm).payload).opId = (decode w.toNat imm).opId :=
      hwf.readIcache_opId
    refine ⟨hop ▸ hwf.opId_ge, hop ▸ hwf.opId_le, himm, hrd, hrs1, hrs2, ?_⟩
    change (readIcache (decode w.toNat imm).payload).imm <
      immLimit (readIcache (decode w.toNat imm).payload).opId
    rw [hop]
    by_cases h0 : (decode w.toNat imm).opId = 0
    · rw [h0]
      exact himm.2
    · rw [hwf.readIcache_imm h0]
      exact decode_immLimit w imm

end Mlogv32.Cpu
