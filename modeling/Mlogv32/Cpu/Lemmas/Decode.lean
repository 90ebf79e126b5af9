import Mlogv32.Cpu.Decode
import Mlogv32.Isa.Lemmas.Formats

/-!
# Decoding of words given by their fields

`decode_encodeR` reduces `decode` to the sub-decoder of the opcode. `Decoded.Agree` compares two
decodings of one word that start with different values in `imm`.
-/

namespace Mlogv32.Cpu
open Mlog Isa

/-! ## The table LABELS -/

theorem labels_decoders : ∀ i : Fin 32, labels ((i : Nat) * 4 : Int) =
    ([.decode_LOAD, .decode_illegal_instruction, .decode_custom_0, .decode_MISC_MEM, .decode_OP_IMM,
      .decode_AUIPC, .decode_illegal_instruction, .decode_illegal_instruction, .decode_STORE,
      .decode_illegal_instruction, .decode_illegal_instruction, .decode_AMO, .decode_OP, .decode_LUI,
      .decode_illegal_instruction, .decode_illegal_instruction, .decode_illegal_instruction,
      .decode_illegal_instruction, .decode_illegal_instruction, .decode_illegal_instruction,
      .decode_illegal_instruction, .decode_illegal_instruction, .decode_illegal_instruction,
      .decode_illegal_instruction, .decode_BRANCH, .decode_JALR, .decode_illegal_instruction,
      .decode_JAL, .decode_SYSTEM, .decode_illegal_instruction, .decode_illegal_instruction,
      .decode_illegal_instruction] : List Label)[i]? := by
  decide +kernel

theorem labels_handlers : ∀ i : Fin 66, labels (128 + (i : Nat) : Int) =
    (Label.BEQ :: handlers)[i]? := by
  decide +kernel

theorem initLabelsUnrolled_of_le (r : ResolvedInstruction) {i n j : Nat} (cell : LabelCell)
    (hr : 0 < r.align) (h : i + n * r.align ≤ j) : initLabelsUnrolled r i n cell j = cell j := by
  induction n generalizing i cell with
  | zero => rfl
  | succ n ih =>
      rw [add_mul, one_mul] at h
      rw [initLabelsUnrolled, ih _ (by omega)]
      exact if_neg (by omega)

theorem initLabelsLoop_of_le (r : ResolvedInstruction) {stop i fuel j : Nat} (cell : LabelCell)
    (hi : i < stop) (h : stop ≤ j) : initLabelsLoop r stop i fuel cell j = cell j := by
  induction fuel generalizing i cell with
  | zero => rfl
  | succ fuel ih =>
      have hwrite : cell.write r.label i j = cell j := if_neg (by omega)
      rw [initLabelsLoop]
      split
      · rw [ih _ ‹_›, hwrite]
      · exact hwrite

/-- The cells from an address on are not written if all entries end there. -/
theorem initLabels_of_le {rs : List ResolvedInstruction} {j : Nat}
    (h : ∀ r ∈ rs, 0 < r.align ∧ 0 < r.count ∧ r.address + r.count * r.align ≤ j) :
    initLabels rs j = none := by
  have hfold (rs : List ResolvedInstruction) (cell : LabelCell)
      (h : ∀ r ∈ rs, 0 < r.align ∧ 0 < r.count ∧ r.address + r.count * r.align ≤ j) :
      rs.foldl initLabelsEntry cell j = cell j := by
    induction rs generalizing cell with
    | nil => rfl
    | cons r rs ih =>
        obtain ⟨halign, hcount, hend⟩ := h r List.mem_cons_self
        rw [List.foldl_cons, ih _ fun r' hr' => h r' (List.mem_cons_of_mem r hr'), initLabelsEntry]
        split
        · exact initLabelsUnrolled_of_le r cell halign hend
        · exact initLabelsLoop_of_le r cell (Nat.lt_add_of_pos_right (Nat.mul_pos hcount halign)) hend
  exact hfold rs _ h

theorem labels_range {i : Int} {label : Label} (h : labels i = some label) : 0 ≤ i ∧ i < 256 := by
  unfold labels at h
  split at h
  · refine ⟨‹_›, Int.not_le.mp fun hi => ?_⟩
    unfold labelCell at h
    have hall : (resolveInstructions instructions).toOption.all (List.all · fun r =>
        0 < r.align ∧ 0 < r.count ∧ r.address + r.count * r.align ≤ 256) = true := by decide +kernel
    cases hr : resolveInstructions instructions with
    | error e => rw [hr] at h; cases h
    | ok rs =>
        rw [hr] at h hall
        dsimp only [Except.toOption, Option.all] at h hall
        rw [List.all_eq_true] at hall
        rw [initLabels_of_le fun r hrs => ?_] at h
        · cases h
        · have := of_decide_eq_true (hall r hrs)
          exact ⟨this.1, this.2.1, by omega⟩
  · cases h

/-! ## Fields -/

/-- The fields of a word in the R-type format with the opcode `op` in bits 6 to 2. -/
def wordFields (funct7 : BitVec 7) (rs2 rs1 : Reg) (funct3 : BitVec 3) (rd : Reg) (op : BitVec 5)
    (imm : Int) : Fields :=
  { value := (encodeR funct7 rs2 rs1 funct3 rd (op ++ 0b11#2)).toNat
    imm := imm
    result := rs2.toNat * 2 ^ 42 + rs1.toNat * 2 ^ 37 + rd.toNat * 2 ^ 32
    imm40 := rd.toNat
    funct12 := funct7.toNat * 32 + rs2.toNat
    funct7 := funct7.toNat
    funct3 := funct3.toNat
    opcode62 := op.toNat * 4 }

theorem wordFields_funct3 (funct7 : BitVec 7) (rs2 rs1 : Reg) (funct3 : BitVec 3) (rd : Reg)
    (op : BitVec 5) (imm : Int) :
    0 ≤ (wordFields funct7 rs2 rs1 funct3 rd op imm).funct3 ∧
      (wordFields funct7 rs2 rs1 funct3 rd op imm).funct3 < 8 :=
  ⟨Int.natCast_nonneg _, Int.ofNat_lt.mpr funct3.isLt⟩

theorem wordFields_funct7 (funct7 : BitVec 7) (rs2 rs1 : Reg) (funct3 : BitVec 3) (rd : Reg)
    (op : BitVec 5) (imm : Int) :
    0 ≤ (wordFields funct7 rs2 rs1 funct3 rd op imm).funct7 ∧
      (wordFields funct7 rs2 rs1 funct3 rd op imm).funct7 < 128 :=
  ⟨Int.natCast_nonneg _, Int.ofNat_lt.mpr funct7.isLt⟩

theorem decode_encodeR (funct7 : BitVec 7) (rs2 rs1 : Reg) (funct3 : BitVec 3) (rd : Reg)
    (op : BitVec 5) (imm : Int) :
    decode (encodeR funct7 rs2 rs1 funct3 rd (op ++ 0b11#2)).toNat imm =
      decodeAt (labels (op.toNat * 4)) (wordFields funct7 rs2 rs1 funct3 rd op imm) := by
  have hv := encodeR_toNat funct7 rs2 rs1 funct3 rd (op ++ 0b11#2)
  rw [toNat_append_eq] at hv
  unfold wordFields
  generalize (encodeR funct7 rs2 rs1 funct3 rd (op ++ 0b11#2)).toNat = n at hv ⊢
  have h7 := funct7.isLt
  have h2 := rs2.isLt
  have h1 := rs1.isLt
  have h3 := funct3.isLt
  have hd := rd.isLt
  have ho := op.isLt
  have hlow : opAnd n 0b11 = 3 := by
    rw [opAnd_mask _ 0 2 (by norm_num) (by norm_num)]
    simp only [BitVec.toNat_ofNat] at hv
    omega
  have hregs : opAnd n 0b1111111111000000000000000 = (rs2.toNat * 32 + rs1.toNat) * 2 ^ 15 := by
    rw [opAnd_mask _ 15 10 (by norm_num) (by norm_num)]
    simp only [BitVec.toNat_ofNat] at hv
    omega
  have hrd : opAnd n 0b0000000000000111110000000 = rd.toNat * 2 ^ 7 := by
    rw [opAnd_mask _ 7 5 (by norm_num) (by norm_num)]
    simp only [BitVec.toNat_ofNat] at hv
    omega
  have hop : opAnd n 0b1111100 = op.toNat * 4 := by
    rw [opAnd_mask _ 2 5 (by norm_num) (by norm_num)]
    simp only [BitVec.toNat_ofNat] at hv
    omega
  have hf12 : opShr n 20 = funct7.toNat * 32 + rs2.toNat := by
    rw [show opShr n 20 = n / 2 ^ 20 from opShr_eq n 20 (by decide) (by omega) (by omega)]
    simp only [BitVec.toNat_ofNat] at hv
    omega
  have hf7 : opShr (funct7.toNat * 32 + rs2.toNat) 5 = funct7.toNat := by
    rw [show opShr (funct7.toNat * 32 + rs2.toNat) 5 = (funct7.toNat * 32 + rs2.toNat) / 2 ^ 5 from
      opShr_eq _ 5 (by decide) (by omega) (by omega)]
    omega
  have hf3 : opAnd (opShr n 12) 0b111 = funct3.toNat := by
    rw [show opShr n 12 = n / 2 ^ 12 from opShr_eq n 12 (by decide) (by omega) (by omega),
      opAnd_mask _ 0 3 (by norm_num) (by norm_num)]
    simp only [BitVec.toNat_ofNat] at hv
    omega
  have himm : opShr (rd.toNat * 2 ^ 7) 7 = rd.toNat := by
    rw [show opShr (rd.toNat * 2 ^ 7) 7 = (rd.toNat * 2 ^ 7) / 2 ^ 7 from
      opShr_eq _ 7 (by decide) (by omega) (by omega)]
    omega
  have hresult : opShl ((rs2.toNat * 32 + rs1.toNat) * 2 ^ 15) 22 + opShl (rd.toNat * 2 ^ 7) 25 =
      rs2.toNat * 2 ^ 42 + rs1.toNat * 2 ^ 37 + rd.toNat * 2 ^ 32 := by
    rw [show opShl ((rs2.toNat * 32 + rs1.toNat) * 2 ^ 15) 22 =
        (rs2.toNat * 32 + rs1.toNat) * 2 ^ 15 * 2 ^ 22 from
        opShl_eq _ 22 (by decide) (by omega) (by omega),
      show opShl (rd.toNat * 2 ^ 7) 25 = rd.toNat * 2 ^ 7 * 2 ^ 25 from
        opShl_eq _ 25 (by decide) (by omega) (by omega)]
    ring
  simp only [decode, hlow, hregs, hrd, hop, hf12, hf7, hf3, himm, hresult, ne_eq, not_true_eq_false,
    if_false]

theorem decode_compressed {v : Int} (hv : v % 4 ≠ 3) (imm : Int) :
    decode v imm = decodeIllegalInstruction imm (opAnd v 0b1111111111000000000000000) := by
  have hlow : opAnd v 0b11 = v % 4 := by
    rw [opAnd_mask _ 0 2 (by norm_num) (by norm_num)]
    omega
  rw [decode, if_pos (by rw [hlow]; exact hv)]

/-! ## Stale immediates -/

/-- The instruction formats with an immediate, by op_id. The others are the illegal instruction, the
atomics and the operations on two registers. -/
def hasImm (opId : Int) : Bool :=
  !(opId = 0 || (-47 ≤ opId && opId ≤ -37) || (-28 ≤ opId && opId ≤ -13) || opId = -35 || opId = -31)

/-- Two decodings of a word agree: on op_id and the registers, and on the immediate if there is one. -/
structure Decoded.Agree (d d' : Decoded) : Prop where
  opId : d.opId = d'.opId
  result : d.result = d'.result
  imm : hasImm d.opId → d.imm = d'.imm

theorem Decoded.Agree.rfl {d : Decoded} : d.Agree d := ⟨Eq.refl _, Eq.refl _, fun _ => Eq.refl _⟩

/-- Decoders that leave `imm` as it is have an op_id without an immediate. -/
theorem endDecode_agree {opId : Int} (h : hasImm opId = false) (imm imm' result : Int) :
    (endDecode opId imm result).Agree (endDecode opId imm' result) :=
  ⟨Eq.refl _, Eq.refl _, fun himm => absurd himm (by simp [endDecode, h])⟩

theorem decodeIllegalInstruction_agree (imm imm' result : Int) :
    (decodeIllegalInstruction imm result).Agree (decodeIllegalInstruction imm' result) :=
  endDecode_agree (by decide) imm imm' result

section Agree

variable (f : Fields) (imm : Int)

theorem decodeLOAD_agree : (decodeLOAD f).Agree (decodeLOAD { f with imm := imm }) := by
  simp only [decodeLOAD]
  split_ifs
  · exact decodeIllegalInstruction_agree _ _ _
  · exact .rfl
  · exact decodeIllegalInstruction_agree _ _ _

theorem decodeCustom0_agree : (decodeCustom0 f).Agree (decodeCustom0 { f with imm := imm }) := by
  simp only [decodeCustom0]
  split_ifs
  · exact .rfl
  · exact decodeIllegalInstruction_agree _ _ _

theorem decodeMISC_MEM_agree : (decodeMISC_MEM f).Agree (decodeMISC_MEM { f with imm := imm }) := by
  simp only [decodeMISC_MEM]
  split_ifs
  · exact .rfl
  · exact decodeIllegalInstruction_agree _ _ _

theorem decodeOP_IMM_agree : (decodeOP_IMM f).Agree (decodeOP_IMM { f with imm := imm }) := by
  simp only [decodeOP_IMM, decodeSRLI_SRAI, decodeSLLI]
  split_ifs
  all_goals first | exact .rfl | exact decodeIllegalInstruction_agree _ _ _

theorem decodeAMO_agree (h7 : 0 ≤ f.funct7 ∧ f.funct7 < 128) :
    (decodeAMO f).Agree (decodeAMO { f with imm := imm }) := by
  have hshr : opShr f.funct7 2 = f.funct7 / 4 :=
    opShr_eq _ 2 (by decide) (by omega) (by omega)
  have hshr' : opShr (f.funct7 / 4) 2 = f.funct7 / 4 / 4 :=
    opShr_eq _ 2 (by decide) (by omega) (by omega)
  simp only [decodeAMO, hshr, hshr']
  split_ifs
  · exact decodeIllegalInstruction_agree _ _ _
  · exact endDecode_agree (by simp [hasImm]; omega) _ _ _
  · exact endDecode_agree (by simp [hasImm]; omega) _ _ _
  · exact decodeIllegalInstruction_agree _ _ _

theorem decodeOP_agree (h3 : 0 ≤ f.funct3 ∧ f.funct3 < 8) :
    (decodeOP f).Agree (decodeOP { f with imm := imm }) := by
  simp only [decodeOP]
  split_ifs
  · exact endDecode_agree (by simp [hasImm]; omega) _ _ _
  · exact endDecode_agree (by simp [hasImm]; omega) _ _ _
  · exact decodeIllegalInstruction_agree _ _ _
  · exact endDecode_agree (by decide) _ _ _
  · exact endDecode_agree (by decide) _ _ _
  · exact decodeIllegalInstruction_agree _ _ _

theorem decodeBRANCH_agree : (decodeBRANCH f).Agree (decodeBRANCH { f with imm := imm }) := by
  simp only [decodeBRANCH]
  split_ifs
  · exact decodeIllegalInstruction_agree _ _ _
  · exact decodeIllegalInstruction_agree _ _ _
  · exact .rfl

theorem decodeSYSTEM_agree : (decodeSYSTEM f).Agree (decodeSYSTEM { f with imm := imm }) := by
  simp only [decodeSYSTEM]
  split_ifs
  · exact .rfl
  · exact decodeIllegalInstruction_agree _ _ _

theorem decodeAt_agree (label : Option Label) (h3 : 0 ≤ f.funct3 ∧ f.funct3 < 8)
    (h7 : 0 ≤ f.funct7 ∧ f.funct7 < 128) :
    (decodeAt label f).Agree (decodeAt label { f with imm := imm }) := by
  unfold decodeAt
  split
  case h_1 => exact decodeLOAD_agree f imm
  case h_2 => exact decodeCustom0_agree f imm
  case h_3 => exact decodeMISC_MEM_agree f imm
  case h_4 => exact decodeOP_IMM_agree f imm
  case h_5 => exact .rfl
  case h_6 => exact .rfl
  case h_7 => exact decodeAMO_agree f imm h7
  case h_8 => exact decodeOP_agree f imm h3
  case h_9 => exact .rfl
  case h_10 => exact decodeBRANCH_agree f imm
  case h_11 => exact .rfl
  case h_12 => exact .rfl
  case h_13 => exact decodeSYSTEM_agree f imm
  case h_14 => exact decodeIllegalInstruction_agree _ _ _

end Agree

/-! ## Ranges -/

/-- The outputs of a decoder fit the fields of the payload. -/
structure Decoded.InRange (d : Decoded) (result : Int) : Prop where
  opId_ge : -64 ≤ d.opId
  opId_le : d.opId ≤ 63
  imm_nonneg : 0 ≤ d.imm
  imm_lt : d.imm < 2 ^ 32
  result_eq : d.result = result

theorem opAnd_word (a : Int) : opAnd a 0xffffffff = a % 2 ^ 32 := by
  rw [opAnd_mask a 0 32 (by norm_num) (by norm_num)]
  omega

theorem endDecode_inRange {opId : Int} (hlo : -64 ≤ opId) (hhi : opId ≤ 63) (imm result : Int) :
    (endDecode opId imm result).InRange result := by
  have himm : (endDecode opId imm result).imm = imm % 2 ^ 32 := opAnd_word imm
  exact ⟨hlo, hhi, by omega, by omega, rfl⟩

theorem decodeAMO_inRange (f : Fields) (h7 : 0 ≤ f.funct7 ∧ f.funct7 < 128) :
    (decodeAMO f).InRange f.result := by
  have hshr : opShr f.funct7 2 = f.funct7 / 4 :=
    opShr_eq _ 2 (by decide) (by omega) (by omega)
  have hshr' : opShr (f.funct7 / 4) 2 = f.funct7 / 4 / 4 :=
    opShr_eq _ 2 (by decide) (by omega) (by omega)
  simp only [decodeAMO, hshr, hshr', decodeIllegalInstruction]
  split_ifs
  all_goals exact endDecode_inRange (by omega) (by omega) _ _

theorem decodeAt_inRange (label : Option Label) (f : Fields) (h3 : 0 ≤ f.funct3 ∧ f.funct3 < 8)
    (h7 : 0 ≤ f.funct7 ∧ f.funct7 < 128) : (decodeAt label f).InRange f.result := by
  unfold decodeAt
  split
  case h_7 => exact decodeAMO_inRange f h7
  case h_11 => exact endDecode_inRange (by decide) (by decide) _ _
  case h_12 => exact endDecode_inRange (by decide) (by decide) _ _
  case h_14 => exact endDecode_inRange (by decide) (by decide) _ _
  all_goals
    simp only [decodeLOAD, decodeCustom0, decodeMISC_MEM, decodeOP_IMM, decodeSRLI_SRAI, decodeSLLI,
      decodeLUI_AUIPC, decodeSTORE, decodeOP, decodeBRANCH, decodeSYSTEM, decodeIType,
      decodeITypeNoExtendSign, decodeIllegalInstruction]
    split_ifs
    all_goals exact endDecode_inRange (by omega) (by omega) _ _

/-- The register fields that a legal word has in its payload. -/
def registerBits (rs2 rs1 rd : Reg) : Int :=
  rs2.toNat * 2 ^ 42 + rs1.toNat * 2 ^ 37 + rd.toNat * 2 ^ 32

theorem decode_encodeR_inRange (funct7 : BitVec 7) (rs2 rs1 : Reg) (funct3 : BitVec 3) (rd : Reg)
    (op : BitVec 5) (imm : Int) :
    (decode (encodeR funct7 rs2 rs1 funct3 rd (op ++ 0b11#2)).toNat imm).InRange
      (registerBits rs2 rs1 rd) := by
  rw [decode_encodeR]
  exact decodeAt_inRange _ _ (wordFields_funct3 ..) (wordFields_funct7 ..)

theorem decode_encodeR_agree (funct7 : BitVec 7) (rs2 rs1 : Reg) (funct3 : BitVec 3) (rd : Reg)
    (op : BitVec 5) (imm imm' : Int) :
    (decode (encodeR funct7 rs2 rs1 funct3 rd (op ++ 0b11#2)).toNat imm).Agree
      (decode (encodeR funct7 rs2 rs1 funct3 rd (op ++ 0b11#2)).toNat imm') := by
  rw [decode_encodeR, decode_encodeR]
  exact decodeAt_agree (wordFields funct7 rs2 rs1 funct3 rd op imm) imm' _
    (wordFields_funct3 ..) (wordFields_funct7 ..)

theorem word_cases (w : Word) :
    (∃ funct7 rs2 rs1 funct3 rd, ∃ op : BitVec 5,
      w = encodeR funct7 rs2 rs1 funct3 rd (op ++ 0b11#2)) ∨ w.toNat % 4 ≠ 3 := by
  obtain ⟨funct7, rs2, rs1, funct3, rd, opcode, rfl⟩ := exists_encodeR w
  obtain ⟨op, low, rfl⟩ := exists_append (m := 5) (n := 2) opcode
  by_cases hlow : low = 0b11#2
  · subst hlow
    exact Or.inl ⟨funct7, rs2, rs1, funct3, rd, op, rfl⟩
  · right
    have hlt := low.isLt
    have hne : low.toNat ≠ 3 := fun h => hlow (BitVec.eq_of_toNat_eq h)
    rw [encodeR_toNat, toNat_append_eq]
    omega

theorem decode_agree (w : Word) (imm imm' : Int) :
    (decode w.toNat imm).Agree (decode w.toNat imm') := by
  rcases word_cases w with ⟨funct7, rs2, rs1, funct3, rd, op, rfl⟩ | hlow
  · exact decode_encodeR_agree funct7 rs2 rs1 funct3 rd op imm imm'
  · rw [decode_compressed (by omega), decode_compressed (by omega)]
    exact decodeIllegalInstruction_agree _ _ _

/-- The outputs of `decode`. The register bits are in place unless the word is illegal. -/
structure Decoded.WellFormed (d : Decoded) : Prop where
  opId_ge : -64 ≤ d.opId
  opId_le : d.opId ≤ 63
  imm_nonneg : 0 ≤ d.imm
  imm_lt : d.imm < 2 ^ 32
  result_nonneg : 0 ≤ d.result
  result_lt : d.result < 2 ^ 47
  result_dvd : d.opId ≠ 0 → (2 : Int) ^ 32 ∣ d.result

theorem decode_wellFormed (w : Word) (imm : Int) : (decode w.toNat imm).WellFormed := by
  rcases word_cases w with ⟨funct7, rs2, rs1, funct3, rd, op, rfl⟩ | hlow
  · have h := decode_encodeR_inRange funct7 rs2 rs1 funct3 rd op imm
    have h2 := rs2.isLt
    have h1 := rs1.isLt
    have hd := rd.isLt
    have hr := h.result_eq
    rw [registerBits] at hr
    exact ⟨h.opId_ge, h.opId_le, h.imm_nonneg, h.imm_lt, by omega, by omega, fun _ => by omega⟩
  · rw [decode_compressed (by omega)]
    have hmask : opAnd w.toNat 0b1111111111000000000000000 = w.toNat / 2 ^ 15 % 2 ^ 10 * 2 ^ 15 :=
      opAnd_mask w.toNat 15 10 (by norm_num) (by norm_num)
    have h : (endDecode 0 imm (opAnd w.toNat 0b1111111111000000000000000)).InRange _ :=
      endDecode_inRange (by decide) (by decide) imm _
    have hr := h.result_eq
    rw [hmask] at hr
    refine ⟨h.opId_ge, h.opId_le, h.imm_nonneg, h.imm_lt, ?_, ?_, fun hne => absurd rfl hne⟩
    · rw [decodeIllegalInstruction, hmask, hr]
      omega
    · rw [decodeIllegalInstruction, hmask, hr]
      omega

/-! ## The payload -/

section Payload

variable {d : Decoded}

theorem Decoded.WellFormed.low (h : d.WellFormed) :
    0 ≤ opOr d.result d.imm ∧ opOr d.result d.imm < 2 ^ 47 := by
  have himm := h.imm_lt
  exact opOr_lt (by decide) h.result_nonneg h.result_lt h.imm_nonneg (by omega)

theorem Decoded.WellFormed.payload_eq (h : d.WellFormed) :
    d.payload = opOr d.result d.imm + d.opId * 2 ^ 47 := by
  have hlow := h.low
  have hlo := h.opId_ge
  have hhi := h.opId_le
  rw [Decoded.payload, opOr_right_comm,
    show opShl d.opId 47 = d.opId * 2 ^ 47 from opShl_eq _ 47 (by decide) (by omega) (by omega)]
  exact opOr_add 47 (by decide) hlow.1 hlow.2 (Dvd.intro_left _ rfl) (by omega) (by omega)

/-- The registers and the immediate of a legal word do not overlap. -/
theorem Decoded.WellFormed.low_eq (h : d.WellFormed) (hne : d.opId ≠ 0) :
    opOr d.result d.imm = d.imm + d.result := by
  have hres := h.result_lt
  have himm := h.imm_lt
  have hnonneg := h.result_nonneg
  rw [opOr_comm]
  exact opOr_add 32 (by decide) h.imm_nonneg himm (h.result_dvd hne) (by omega) (by omega)

/-- No bit of a payload is lost in a double. -/
theorem Decoded.WellFormed.exact (h : d.WellFormed) : Exact d.payload := by
  have hlow := h.low
  have hlo := h.opId_ge
  have hhi := h.opId_le
  rw [h.payload_eq]
  constructor
  · omega
  · omega

theorem Decoded.WellFormed.readIcache_opId (h : d.WellFormed) :
    (readIcache d.payload).opId = d.opId := by
  have hlow := h.low
  have hexact := h.exact
  have heq := h.payload_eq
  obtain ⟨hlo, hhi⟩ := hexact
  change opShr d.payload 47 = d.opId
  rw [show opShr d.payload 47 = d.payload / 2 ^ 47 from
    opShr_eq _ 47 (by decide) (by omega) (by omega)]
  omega

theorem Decoded.WellFormed.readIcache_imm (h : d.WellFormed) (hne : d.opId ≠ 0) :
    (readIcache d.payload).imm = d.imm := by
  have heq := h.payload_eq
  have hdvd := h.result_dvd hne
  have hnonneg := h.imm_nonneg
  have hlt := h.imm_lt
  rw [h.low_eq hne] at heq
  change opAnd d.payload 0xffffffff = d.imm
  rw [opAnd_word]
  omega

/-- The register fields are below the op_id and above the immediate. -/
theorem Decoded.WellFormed.readIcache_field (h : d.WellFormed) (hne : d.opId ≠ 0) (k : Nat)
    (hk : 32 ≤ k) (hk' : k + 5 ≤ 47) :
    opAnd (opShr d.payload k) 0b11111 = opAnd (opShr d.result k) 0b11111 := by
  have heq := h.payload_eq
  have hexact := h.exact
  have hlt := h.result_lt
  have hnonneg := h.result_nonneg
  obtain ⟨hlo, hhi⟩ := hexact
  obtain ⟨r, hr⟩ := h.result_dvd hne
  rw [h.low_eq hne] at heq
  rw [opShr_eq _ k (by omega) (by omega) (by omega), opShr_eq _ k (by omega) (by omega) (by omega),
    opAnd_mask _ 0 5 (by norm_num) (by norm_num), opAnd_mask _ 0 5 (by norm_num) (by norm_num)]
  have hpow : (2 : Int) ^ k = 2 ^ 32 * 2 ^ (k - 32) := by rw [← pow_add]; congr 1; omega
  have hpow' : (2 : Int) ^ 15 = 2 ^ (k - 32) * (2 ^ 5 * 2 ^ (42 - k)) := by
    rw [← pow_add, ← pow_add]; congr 1; omega
  have hdiv : d.payload / 2 ^ 32 = r + 2 ^ (k - 32) * (2 ^ 5 * 2 ^ (42 - k) * d.opId) := by
    have hrange := h.imm_nonneg
    have hrange' := h.imm_lt
    calc d.payload / 2 ^ 32 = r + 2 ^ 15 * d.opId := by omega
      _ = r + 2 ^ (k - 32) * (2 ^ 5 * 2 ^ (42 - k) * d.opId) := by rw [hpow']; ring
  have hdiv' : d.result / 2 ^ 32 = r := by omega
  rw [hpow, ← Int.ediv_ediv_of_nonneg (by norm_num), ← Int.ediv_ediv_of_nonneg (by norm_num), hdiv,
    hdiv', Int.add_mul_ediv_left _ _ (by positivity), mul_assoc]
  simp only [pow_zero, Int.ediv_one, Int.add_mul_emod_self_left]

theorem Decoded.WellFormed.readIcache_registers (h : d.WellFormed) (hne : d.opId ≠ 0) :
    (readIcache d.payload).rdId = opAnd (opShr d.result 32) 0b11111 ∧
      (readIcache d.payload).rs1Id = opAnd (opShr d.result 37) 0b11111 ∧
      (readIcache d.payload).rs2Id = opAnd (opShr d.result 42) 0b11111 :=
  ⟨h.readIcache_field hne 32 (by decide) (by decide),
    h.readIcache_field hne 37 (by decide) (by decide),
    h.readIcache_field hne 42 (by decide) (by decide)⟩

end Payload

@[simp] theorem unpackRegisters_opId (opId imm result : Int) :
    (unpackRegisters opId imm result).opId = opId := rfl

@[simp] theorem unpackRegisters_imm (opId imm result : Int) :
    (unpackRegisters opId imm result).imm = imm := rfl

theorem slowFetch_eq (value imm : Int) :
    slowFetch value imm =
      unpackRegisters (decode value imm).opId (decode value imm).imm (decode value imm).result := rfl

/-- The numbers of the registers that the fetch takes out of `result`. -/
theorem unpackRegisters_registerBits (rs2 rs1 rd : Reg) (opId imm : Int) :
    unpackRegisters opId imm (registerBits rs2 rs1 rd) =
      { opId := opId, imm := imm, result := registerBits rs2 rs1 rd, rdId := rd.toNat
        rs1Id := rs1.toNat, rs2Id := rs2.toNat } := by
  have h2 := rs2.isLt
  have h1 := rs1.isLt
  have hd := rd.isLt
  have hrange : -2 ^ 63 ≤ registerBits rs2 rs1 rd ∧ registerBits rs2 rs1 rd < 2 ^ 63 := by
    rw [registerBits]
    omega
  have hfield : ∀ k : Nat, k < 64 → opAnd (opShr (registerBits rs2 rs1 rd) k) 0b11111 =
      registerBits rs2 rs1 rd / 2 ^ k % 32 := by
    intro k hk
    rw [opShr_eq _ k hk hrange.1 hrange.2, opAnd_mask _ 0 5 (by norm_num) (by norm_num)]
    norm_num
  rw [unpackRegisters, Fetched.mk.injEq]
  refine ⟨rfl, rfl, rfl, (hfield 32 (by decide)).trans ?_, (hfield 37 (by decide)).trans ?_,
    (hfield 42 (by decide)).trans ?_⟩
  all_goals
    rw [registerBits]
    omega

end Mlogv32.Cpu
