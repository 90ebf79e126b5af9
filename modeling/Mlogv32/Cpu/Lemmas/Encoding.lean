import Mlogv32.Cpu.Handlers
import Mlogv32.Cpu.Lemmas.Decode

/-!
# Decoding of instructions

The decoder on the encoding of each instruction: its op_id, its immediate and its registers.
-/

namespace Mlogv32.Cpu
open Mlog Isa

/-! ## Handlers -/

/-- The handler of an instruction. The privileged instructions share one. -/
def handlerLabel : Instr → Label
  | .lui .. => .LUI
  | .auipc .. => .AUIPC
  | .jal .. => .JAL
  | .jalr .. => .JALR
  | .branch .beq .. => .BEQ
  | .branch .bne .. => .BNE
  | .branch .blt .. => .BLT
  | .branch .bge .. => .BGE
  | .branch .bltu .. => .BLTU
  | .branch .bgeu .. => .BGEU
  | .load .lb .. => .LB
  | .load .lh .. => .LH
  | .load .lw .. => .LW
  | .load .lbu .. => .LBU
  | .load .lhu .. => .LHU
  | .store .sb .. => .SB
  | .store .sh .. => .SH
  | .store .sw .. => .SW
  | .opImm .addi .. => .ADDI
  | .opImm .slti .. => .SLTI
  | .opImm .sltiu .. => .SLTIU
  | .opImm .xori .. => .XORI
  | .opImm .ori .. => .ORI
  | .opImm .andi .. => .ANDI
  | .shiftImm .slli .. => .SLLI
  | .shiftImm .srli .. => .SRLI
  | .shiftImm .srai .. => .SRAI
  | .opReg .add .. => .ADD
  | .opReg .sub .. => .SUB
  | .opReg .sll .. => .SLL
  | .opReg .slt .. => .SLT
  | .opReg .sltu .. => .SLTU
  | .opReg .xor .. => .XOR
  | .opReg .srl .. => .SRL
  | .opReg .sra .. => .SRA
  | .opReg .or .. => .OR
  | .opReg .and .. => .AND
  | .opReg .mul .. => .MUL
  | .opReg .mulh .. => .MULH
  | .opReg .mulhsu .. => .MULHSU
  | .opReg .mulhu .. => .MULHU
  | .opReg .div .. => .DIV
  | .opReg .divu .. => .DIVU
  | .opReg .rem .. => .REM
  | .opReg .remu .. => .REMU
  | .fence .. => .FENCE
  | .fenceI .. => .FENCE
  | .lr .. => .LR_W
  | .sc .. => .SC_W
  | .amo .amoadd .. => .AMOADD_W
  | .amo .amoswap .. => .AMOSWAP_W
  | .amo .amoxor .. => .AMOXOR_W
  | .amo .amoor .. => .AMOOR_W
  | .amo .amoand .. => .AMOAND_W
  | .amo .amomin .. => .AMOMIN_W
  | .amo .amomax .. => .AMOMAX_W
  | .amo .amominu .. => .AMOMINU_W
  | .amo .amomaxu .. => .AMOMAXU_W
  | .csr .csrrw .. => .CSRRW
  | .csr .csrrs .. => .CSRRS
  | .csr .csrrc .. => .CSRRC
  | .csr .csrrwi .. => .CSRRWI
  | .csr .csrrsi .. => .CSRRSI
  | .csr .csrrci .. => .CSRRCI
  | .ecall | .ebreak | .wfi | .sret | .mret | .sfenceVma .. => .PRIV
  | .mlogsys .. => .MLOGSYS

/-- The handler that PRIV goes on to, with the lowest privilege mode that may run it. -/
def handlerPriv : Instr → Option (Priv × Int)
  | .ecall => some (.ECALL, 0b00)
  | .ebreak => some (.EBREAK, 0b00)
  | .wfi => some (.WFI, 0b00)
  | .sret => some (.SRET, 0b01)
  | .sfenceVma .. => some (.SFENCE_VMA, 0b01)
  | .mret => some (.MRET, 0b11)
  | _ => none

/-- A fetch has prepared the run of an instruction: the dispatch goes to its handler, with its
registers and its immediate. -/
structure Fetched.Runs (d : Fetched) (i : Instr) : Prop where
  label : labels (d.opId + 192) = some (handlerLabel i)
  rd : ∀ r ∈ i.rd, d.rdId = r.toNat
  rs1 : ∀ r ∈ i.rs1, d.rs1Id = r.toNat
  rs2 : ∀ r ∈ i.rs2, d.rs2Id = r.toNat
  imm : ∀ v ∈ i.imm, d.imm = v.toNat
  priv : ∀ p ∈ handlerPriv i, ∀ mode, 0 ≤ mode →
    Cpu.priv d.imm mode = if mode < p.2 then .ILLEGAL_OP else p.1

/-! ## Immediates -/

/-- The decoders extend the sign of a field by toggling its top bit. -/
theorem extendSign_toNat {k : Nat} (hk : k < 32) (x : BitVec (k + 1)) :
    opAnd (opXor x.toNat (2 ^ k) - 2 ^ k) 0xffffffff = (x.signExtend 32).toNat := by
  have hx := x.isLt
  have hle : (2 : Nat) ^ (k + 1) ≤ 2 ^ 32 := Nat.pow_le_pow_right (by decide) (by omega)
  rw [opXor_sub k (by omega) (Int.natCast_nonneg _) (by exact_mod_cast hx), opAnd_word,
    BitVec.toNat_signExtend, BitVec.msb_eq_decide, BitVec.toNat_setWidth,
    Nat.mod_eq_of_lt (by omega : x.toNat < 2 ^ 32)]
  simp only [Nat.add_sub_cancel, decide_eq_true_eq]
  have hcast : ((2 : Int) ^ (k + 1)) = ((2 ^ (k + 1) : Nat) : Int) := by push_cast; rfl
  have hcast' : ((2 : Int) ^ k) = ((2 ^ k : Nat) : Int) := by push_cast; rfl
  rw [hcast, hcast']
  split_ifs <;> omega

theorem opAnd_word_natCast {n : Nat} (h : n < 2 ^ 32) : opAnd n 0xffffffff = n := by
  rw [opAnd_word]
  omega

theorem funct12_eq (imm : BitVec 12) :
    (((imm.extractLsb' 5 7).toNat : Int) * 32 + (imm.extractLsb' 0 5).toNat) = imm.toNat := by
  rw [toNat_extractLsb'_eq, toNat_extractLsb'_eq]
  omega

theorem storeImm_eq (imm : BitVec 12) :
    opShl (imm.extractLsb' 5 7).toNat 5 + (imm.extractLsb' 0 5).toNat = imm.toNat := by
  have h7 := (imm.extractLsb' 5 7).isLt
  rw [show opShl (imm.extractLsb' 5 7).toNat 5 = (imm.extractLsb' 5 7).toNat * 2 ^ 5 from
    opShl_eq _ 5 (by decide) (by omega) (by omega), toNat_extractLsb'_eq, toNat_extractLsb'_eq]
  omega

theorem append_zero_toNat {n : Nat} (x : BitVec n) : (x ++ 0#1).toNat = x.toNat * 2 := by
  rw [toNat_append_eq]
  rfl

/-! ## Opcodes -/

theorem decode_opcode (label : Label) (funct7 : BitVec 7) (rs2 rs1 : Reg) (funct3 : BitVec 3)
    (rd : Reg) (imm : Int) {op : BitVec 5} (h : labels (op.toNat * 4) = some label) :
    decode (encodeR funct7 rs2 rs1 funct3 rd (op ++ 0b11#2)).toNat imm =
      decodeAt (some label) (wordFields funct7 rs2 rs1 funct3 rd op imm) := by
  rw [decode_encodeR, h]

section Opcodes

variable (funct7 : BitVec 7) (rs2 rs1 : Reg) (funct3 : BitVec 3) (rd : Reg) (imm : Int)

theorem decode_LOAD :
    decode (encodeR funct7 rs2 rs1 funct3 rd (0b00000#5 ++ 0b11#2)).toNat imm =
      decodeLOAD (wordFields funct7 rs2 rs1 funct3 rd 0b00000 imm) :=
  decode_opcode .decode_LOAD funct7 rs2 rs1 funct3 rd imm (labels_decoders 0)

theorem decode_custom_0 :
    decode (encodeR funct7 rs2 rs1 funct3 rd (0b00010#5 ++ 0b11#2)).toNat imm =
      decodeCustom0 (wordFields funct7 rs2 rs1 funct3 rd 0b00010 imm) :=
  decode_opcode .decode_custom_0 funct7 rs2 rs1 funct3 rd imm (labels_decoders 2)

theorem decode_MISC_MEM :
    decode (encodeR funct7 rs2 rs1 funct3 rd (0b00011#5 ++ 0b11#2)).toNat imm =
      decodeMISC_MEM (wordFields funct7 rs2 rs1 funct3 rd 0b00011 imm) :=
  decode_opcode .decode_MISC_MEM funct7 rs2 rs1 funct3 rd imm (labels_decoders 3)

theorem decode_OP_IMM :
    decode (encodeR funct7 rs2 rs1 funct3 rd (0b00100#5 ++ 0b11#2)).toNat imm =
      decodeOP_IMM (wordFields funct7 rs2 rs1 funct3 rd 0b00100 imm) :=
  decode_opcode .decode_OP_IMM funct7 rs2 rs1 funct3 rd imm (labels_decoders 4)

theorem decode_AUIPC :
    decode (encodeR funct7 rs2 rs1 funct3 rd (0b00101#5 ++ 0b11#2)).toNat imm =
      decodeLUI_AUIPC (wordFields funct7 rs2 rs1 funct3 rd 0b00101 imm) :=
  decode_opcode .decode_AUIPC funct7 rs2 rs1 funct3 rd imm (labels_decoders 5)

theorem decode_STORE :
    decode (encodeR funct7 rs2 rs1 funct3 rd (0b01000#5 ++ 0b11#2)).toNat imm =
      decodeSTORE (wordFields funct7 rs2 rs1 funct3 rd 0b01000 imm) :=
  decode_opcode .decode_STORE funct7 rs2 rs1 funct3 rd imm (labels_decoders 8)

theorem decode_AMO :
    decode (encodeR funct7 rs2 rs1 funct3 rd (0b01011#5 ++ 0b11#2)).toNat imm =
      decodeAMO (wordFields funct7 rs2 rs1 funct3 rd 0b01011 imm) :=
  decode_opcode .decode_AMO funct7 rs2 rs1 funct3 rd imm (labels_decoders 11)

theorem decode_OP :
    decode (encodeR funct7 rs2 rs1 funct3 rd (0b01100#5 ++ 0b11#2)).toNat imm =
      decodeOP (wordFields funct7 rs2 rs1 funct3 rd 0b01100 imm) :=
  decode_opcode .decode_OP funct7 rs2 rs1 funct3 rd imm (labels_decoders 12)

theorem decode_LUI :
    decode (encodeR funct7 rs2 rs1 funct3 rd (0b01101#5 ++ 0b11#2)).toNat imm =
      decodeLUI_AUIPC (wordFields funct7 rs2 rs1 funct3 rd 0b01101 imm) :=
  decode_opcode .decode_LUI funct7 rs2 rs1 funct3 rd imm (labels_decoders 13)

theorem decode_BRANCH :
    decode (encodeR funct7 rs2 rs1 funct3 rd (0b11000#5 ++ 0b11#2)).toNat imm =
      decodeBRANCH (wordFields funct7 rs2 rs1 funct3 rd 0b11000 imm) :=
  decode_opcode .decode_BRANCH funct7 rs2 rs1 funct3 rd imm (labels_decoders 24)

theorem decode_JALR :
    decode (encodeR funct7 rs2 rs1 funct3 rd (0b11001#5 ++ 0b11#2)).toNat imm =
      decodeJALR (wordFields funct7 rs2 rs1 funct3 rd 0b11001 imm) :=
  decode_opcode .decode_JALR funct7 rs2 rs1 funct3 rd imm (labels_decoders 25)

theorem decode_JAL :
    decode (encodeR funct7 rs2 rs1 funct3 rd (0b11011#5 ++ 0b11#2)).toNat imm =
      decodeJAL (wordFields funct7 rs2 rs1 funct3 rd 0b11011 imm) :=
  decode_opcode .decode_JAL funct7 rs2 rs1 funct3 rd imm (labels_decoders 27)

theorem decode_SYSTEM :
    decode (encodeR funct7 rs2 rs1 funct3 rd (0b11100#5 ++ 0b11#2)).toNat imm =
      decodeSYSTEM (wordFields funct7 rs2 rs1 funct3 rd 0b11100 imm) :=
  decode_opcode .decode_SYSTEM funct7 rs2 rs1 funct3 rd imm (labels_decoders 28)

end Opcodes

theorem labels_opId {opId : Int} (hlo : -64 ≤ opId) (hhi : opId ≤ 1) :
    labels (opId + 192) = (Label.BEQ :: handlers)[(opId + 64).toNat]? := by
  have h := labels_handlers ⟨(opId + 64).toNat, by omega⟩
  rw [show opId + 192 = 128 + ((opId + 64).toNat : Int) by omega]
  exact h

/-! ## Instructions -/

/-- The decoder's outputs are those of an instruction, whose word has the given register fields. -/
structure Decoded.Of (d : Decoded) (i : Instr) (rs2 rs1 rd : Reg) : Prop where
  label : labels (d.opId + 192) = some (handlerLabel i)
  opId_ne : d.opId ≠ 0
  result : d.result = registerBits rs2 rs1 rd
  rd : i.rd.getD rd = rd
  rs1 : i.rs1.getD rs1 = rs1
  rs2 : i.rs2.getD rs2 = rs2
  imm : i.imm.elim d.imm (fun v => (v.toNat : Int)) = d.imm

theorem endDecode_of {i : Instr} {rs2 rs1 rd : Reg} {opId imm : Int}
    (hop : decide (-64 ≤ opId ∧ opId ≤ 1 ∧ opId ≠ 0) = true)
    (hlabel : (Label.BEQ :: handlers)[(opId + 64).toNat]? = some (handlerLabel i))
    (hrd : i.rd.getD rd = rd) (hrs1 : i.rs1.getD rs1 = rs1) (hrs2 : i.rs2.getD rs2 = rs2)
    (himm : i.imm.elim (opAnd imm 0xffffffff) (fun v => (v.toNat : Int)) = opAnd imm 0xffffffff) :
    (endDecode opId imm (registerBits rs2 rs1 rd)).Of i rs2 rs1 rd := by
  obtain ⟨hlo, hhi, hne⟩ := of_decide_eq_true hop
  exact ⟨(labels_opId hlo hhi).trans hlabel, hne, rfl, hrd, hrs1, hrs2, himm⟩

section Instructions

variable (imm : Int) (rd rs1 rs2 : Reg)

theorem signExtend_funct12 (offset : BitVec 12) :
    ((offset.signExtend 32).toNat : Int) =
      opAnd (opXor ((offset.extractLsb' 5 7).toNat * 32 + (offset.extractLsb' 0 5).toNat) 2048 - 2048)
        0xffffffff := by
  rw [funct12_eq]
  exact (extendSign_toNat (k := 11) (by decide) offset).symm

theorem setWidth_funct12 (n : BitVec 12) :
    ((n.setWidth 32).toNat : Int) =
      opAnd ((n.extractLsb' 5 7).toNat * 32 + (n.extractLsb' 0 5).toNat) 0xffffffff := by
  have hn := n.isLt
  rw [funct12_eq, opAnd_word_natCast (by omega), BitVec.toNat_setWidth, Nat.mod_eq_of_lt (by omega)]

theorem load_of (op : LoadOp) (offset : BitVec 12) :
    (decode (Instr.load op rd rs1 offset).encode.toNat imm).Of (.load op rd rs1 offset)
      (offset.extractLsb' 0 5) rs1 rd := by
  change (decode (encodeI _ _ _ _ _).toNat imm).Of _ _ _ _
  rw [encodeI_eq]
  refine (congrArg (Decoded.Of · _ _ _ _) (decode_LOAD _ _ _ _ _ imm)).mpr ?_
  cases op
  all_goals exact endDecode_of rfl rfl rfl rfl rfl (signExtend_funct12 offset)

theorem opImm_of (op : ImmOp) (offset : BitVec 12) :
    (decode (Instr.opImm op rd rs1 offset).encode.toNat imm).Of (.opImm op rd rs1 offset)
      (offset.extractLsb' 0 5) rs1 rd := by
  change (decode (encodeI _ _ _ _ _).toNat imm).Of _ _ _ _
  rw [encodeI_eq]
  refine (congrArg (Decoded.Of · _ _ _ _) (decode_OP_IMM _ _ _ _ _ imm)).mpr ?_
  cases op
  all_goals exact endDecode_of rfl rfl rfl rfl rfl (signExtend_funct12 offset)

theorem jalr_of (offset : BitVec 12) :
    (decode (Instr.jalr rd rs1 offset).encode.toNat imm).Of (.jalr rd rs1 offset)
      (offset.extractLsb' 0 5) rs1 rd := by
  change (decode (encodeI _ _ _ _ _).toNat imm).Of _ _ _ _
  rw [encodeI_eq]
  refine (congrArg (Decoded.Of · _ _ _ _) (decode_JALR _ _ _ _ _ imm)).mpr ?_
  exact endDecode_of rfl rfl rfl rfl rfl (signExtend_funct12 offset)

theorem fence_of (n : BitVec 12) :
    (decode (Instr.fence rd rs1 n).encode.toNat imm).Of (.fence rd rs1 n)
      (n.extractLsb' 0 5) rs1 rd := by
  change (decode (encodeI _ _ _ _ _).toNat imm).Of _ _ _ _
  rw [encodeI_eq]
  refine (congrArg (Decoded.Of · _ _ _ _) (decode_MISC_MEM _ _ _ _ _ imm)).mpr ?_
  exact endDecode_of rfl rfl rfl rfl rfl (setWidth_funct12 n)

theorem fenceI_of (n : BitVec 12) :
    (decode (Instr.fenceI rd rs1 n).encode.toNat imm).Of (.fenceI rd rs1 n)
      (n.extractLsb' 0 5) rs1 rd := by
  change (decode (encodeI _ _ _ _ _).toNat imm).Of _ _ _ _
  rw [encodeI_eq]
  refine (congrArg (Decoded.Of · _ _ _ _) (decode_MISC_MEM _ _ _ _ _ imm)).mpr ?_
  exact endDecode_of rfl rfl rfl rfl rfl (setWidth_funct12 n)

theorem csr_of (op : CsrOp) (n : BitVec 12) :
    (decode (Instr.csr op rd rs1 n).encode.toNat imm).Of (.csr op rd rs1 n)
      (n.extractLsb' 0 5) rs1 rd := by
  change (decode (encodeI _ _ _ _ _).toNat imm).Of _ _ _ _
  rw [encodeI_eq]
  refine (congrArg (Decoded.Of · _ _ _ _) (decode_SYSTEM _ _ _ _ _ imm)).mpr ?_
  cases op
  all_goals exact endDecode_of rfl rfl rfl rfl rfl (setWidth_funct12 n)

theorem mlogsys_of (n : BitVec 12) :
    (decode (Instr.mlogsys rs1 n).encode.toNat imm).Of (.mlogsys rs1 n)
      (n.extractLsb' 0 5) rs1 0 := by
  change (decode (encodeI _ _ _ _ _).toNat imm).Of _ _ _ _
  rw [encodeI_eq]
  refine (congrArg (Decoded.Of · _ _ _ _) (decode_custom_0 _ _ _ _ _ imm)).mpr ?_
  exact endDecode_of rfl rfl rfl rfl rfl (setWidth_funct12 n)

theorem store_of (op : StoreOp) (offset : BitVec 12) :
    (decode (Instr.store op rs1 rs2 offset).encode.toNat imm).Of (.store op rs1 rs2 offset)
      rs2 rs1 (offset.extractLsb' 0 5) := by
  change (decode (encodeS _ _ _ _ _).toNat imm).Of _ _ _ _
  rw [encodeS_eq]
  refine (congrArg (Decoded.Of · _ _ _ _) (decode_STORE _ _ _ _ _ imm)).mpr ?_
  have himm : ((offset.signExtend 32).toNat : Int) =
      opAnd (opXor (opShl (offset.extractLsb' 5 7).toNat 5 + (offset.extractLsb' 0 5).toNat) 2048 -
        2048) 0xffffffff := by
    rw [storeImm_eq]
    exact (extendSign_toNat (k := 11) (by decide) offset).symm
  cases op
  all_goals exact endDecode_of rfl rfl rfl rfl rfl himm

theorem opReg_of (op : RegOp) :
    (decode (Instr.opReg op rd rs1 rs2).encode.toNat imm).Of (.opReg op rd rs1 rs2) rs2 rs1 rd := by
  refine (congrArg (Decoded.Of · _ _ _ _) (decode_OP _ _ _ _ _ imm)).mpr ?_
  cases op
  all_goals exact endDecode_of rfl rfl rfl rfl rfl rfl

theorem shiftImm_of (op : ShiftOp) (shamt : BitVec 5) :
    (decode (Instr.shiftImm op rd rs1 shamt).encode.toNat imm).Of (.shiftImm op rd rs1 shamt)
      shamt rs1 rd := by
  have hs := shamt.isLt
  have hset : (shamt.setWidth 32).toNat = shamt.toNat := by
    rw [BitVec.toNat_setWidth, Nat.mod_eq_of_lt (by omega)]
  refine (congrArg (Decoded.Of · _ _ _ _) (decode_OP_IMM _ _ _ _ _ imm)).mpr ?_
  cases op with
  | slli =>
      refine endDecode_of rfl rfl rfl rfl rfl ?_
      change ((shamt.setWidth 32).toNat : Int) = opAnd (0 * 32 + shamt.toNat) 0xffffffff
      rw [hset, zero_mul, zero_add, opAnd_word_natCast (by omega)]
  | srli =>
      refine endDecode_of rfl rfl rfl rfl rfl ?_
      change ((shamt.setWidth 32).toNat : Int) = opAnd (0 * 32 + shamt.toNat) 0xffffffff
      rw [hset, zero_mul, zero_add, opAnd_word_natCast (by omega)]
  | srai =>
      -- the immediate still has a bit of funct7
      refine endDecode_of rfl rfl rfl rfl rfl ?_
      change ((shamt.setWidth 32).toNat : Int) =
        opAnd (opAnd (32 * 32 + shamt.toNat) 0b11111) 0xffffffff
      rw [hset, opAnd_mask (32 * 32 + _) 0 5 (by norm_num) (by norm_num), opAnd_word]
      omega

/-! ### Atomics -/

theorem append_order_toNat (funct5 : BitVec 5) (order : BitVec 2) :
    opShr (funct5 ++ order).toNat 2 = funct5.toNat := by
  have ho := order.isLt
  have hf := (funct5 ++ order).isLt
  rw [show opShr (funct5 ++ order).toNat 2 = (funct5 ++ order).toNat / 2 ^ 2 from
    opShr_eq _ 2 (by decide) (by omega) (by omega), toNat_append_eq]
  omega

theorem decodeAMO_funct5 (funct5 : BitVec 5) (order : BitVec 2) :
    decodeAMO (wordFields (funct5 ++ order) rs2 rs1 0b010 rd 0b01011 imm) =
      if (funct5.toNat : Int) ≤ 3 then
        endDecode (-47 + funct5.toNat) imm (registerBits rs2 rs1 rd)
      else if (funct5.toNat : Int) % 4 = 0 then
        endDecode (-44 + funct5.toNat / 4) imm (registerBits rs2 rs1 rd)
      else decodeIllegalInstruction imm (registerBits rs2 rs1 rd) := by
  have hf := funct5.isLt
  have hlow : opAnd funct5.toNat 0b11 = funct5.toNat % 4 := by
    rw [opAnd_mask _ 0 2 (by norm_num) (by norm_num)]
    omega
  have hhigh : opShr funct5.toNat 2 = funct5.toNat / 4 :=
    opShr_eq _ 2 (by decide) (by omega) (by omega)
  simp only [decodeAMO, wordFields, append_order_toNat, hlow, hhigh, registerBits]
  rfl

theorem amo_of (op : AmoOp) (order : BitVec 2) :
    (decode (Instr.amo op order rd rs1 rs2).encode.toNat imm).Of (.amo op order rd rs1 rs2)
      rs2 rs1 rd := by
  refine (congrArg (Decoded.Of · _ _ _ _) (decode_AMO _ _ _ _ _ imm)).mpr ?_
  rw [decodeAMO_funct5]
  cases op
  all_goals exact endDecode_of rfl rfl rfl rfl rfl rfl

theorem lr_of (order : BitVec 2) :
    (decode (Instr.lr order rd rs1).encode.toNat imm).Of (.lr order rd rs1) 0 rs1 rd := by
  refine (congrArg (Decoded.Of · _ _ _ _) (decode_AMO _ _ _ _ _ imm)).mpr ?_
  rw [decodeAMO_funct5]
  exact endDecode_of rfl rfl rfl rfl rfl rfl

theorem sc_of (order : BitVec 2) :
    (decode (Instr.sc order rd rs1 rs2).encode.toNat imm).Of (.sc order rd rs1 rs2) rs2 rs1 rd := by
  refine (congrArg (Decoded.Of · _ _ _ _) (decode_AMO _ _ _ _ _ imm)).mpr ?_
  rw [decodeAMO_funct5]
  exact endDecode_of rfl rfl rfl rfl rfl rfl

/-! ### Privileged instructions -/

theorem decode_priv (n : BitVec 12) :
    decode (encodePriv n).toNat imm =
      endDecode (-12) n.toNat (registerBits (n.extractLsb' 0 5) 0 0) := by
  rw [encodePriv, encodeI_eq, ← funct12_eq]
  exact decode_SYSTEM _ _ _ _ _ imm

theorem ecall_of : (decode Instr.ecall.encode.toNat imm).Of .ecall 0 0 0 := by
  change (decode (encodePriv _).toNat imm).Of _ _ _ _
  rw [decode_priv]
  exact endDecode_of rfl rfl rfl rfl rfl rfl

theorem ebreak_of : (decode Instr.ebreak.encode.toNat imm).Of .ebreak 1 0 0 := by
  change (decode (encodePriv _).toNat imm).Of _ _ _ _
  rw [decode_priv]
  exact endDecode_of rfl rfl rfl rfl rfl rfl

theorem wfi_of : (decode Instr.wfi.encode.toNat imm).Of .wfi 5 0 0 := by
  change (decode (encodePriv _).toNat imm).Of _ _ _ _
  rw [decode_priv]
  exact endDecode_of rfl rfl rfl rfl rfl rfl

theorem sret_of : (decode Instr.sret.encode.toNat imm).Of .sret 2 0 0 := by
  change (decode (encodePriv _).toNat imm).Of _ _ _ _
  rw [decode_priv]
  exact endDecode_of rfl rfl rfl rfl rfl rfl

theorem mret_of : (decode Instr.mret.encode.toNat imm).Of .mret 2 0 0 := by
  change (decode (encodePriv _).toNat imm).Of _ _ _ _
  rw [decode_priv]
  exact endDecode_of rfl rfl rfl rfl rfl rfl

theorem sfenceVma_of :
    (decode (Instr.sfenceVma rs1 rs2).encode.toNat imm).Of (.sfenceVma rs1 rs2) rs2 rs1 0 := by
  have h2 := rs2.isLt
  refine (congrArg (Decoded.Of · _ _ _ _) (decode_SYSTEM _ _ _ _ _ imm)).mpr ?_
  refine endDecode_of rfl rfl rfl rfl rfl ?_
  change (((0b0001001#7 ++ rs2).setWidth 32).toNat : Int) = opAnd (9 * 32 + rs2.toNat) 0xffffffff
  rw [BitVec.toNat_setWidth, toNat_append_eq, opAnd_word, BitVec.toNat_ofNat]
  omega

/-! ### Upper immediates and offsets -/

theorem encodeU_toNat (n : BitVec 20) (opcode : BitVec 7) :
    (encodeU n rd opcode).toNat = n.toNat * 2 ^ 12 + rd.toNat * 2 ^ 7 + opcode.toNat := by
  simp only [encodeU, toNat_append_eq]
  ring

theorem upperImm_eq (n : BitVec 20) (opcode : BitVec 7) :
    ((n ++ 0#12).toNat : Int) =
      opAnd (opAnd (encodeU n rd opcode).toNat 0b11111111111111111111000000000000) 0xffffffff := by
  have hn := n.isLt
  have hd := rd.isLt
  have ho := opcode.isLt
  rw [opAnd_word, opAnd_mask _ 12 20 (by norm_num) (by norm_num), encodeU_toNat, toNat_append_eq,
    BitVec.toNat_ofNat]
  omega

theorem lui_of (n : BitVec 20) :
    (decode (Instr.lui rd n).encode.toNat imm).Of (.lui rd n)
      (n.extractLsb' 8 5) (n.extractLsb' 3 5) rd := by
  have himm := upperImm_eq rd n 0b0110111
  rw [encodeU_eq] at himm
  change (decode (encodeU _ _ _).toNat imm).Of _ _ _ _
  rw [encodeU_eq]
  refine (congrArg (Decoded.Of · _ _ _ _) (decode_LUI _ _ _ _ _ imm)).mpr ?_
  exact endDecode_of rfl rfl rfl rfl rfl himm

theorem auipc_of (n : BitVec 20) :
    (decode (Instr.auipc rd n).encode.toNat imm).Of (.auipc rd n)
      (n.extractLsb' 8 5) (n.extractLsb' 3 5) rd := by
  have himm := upperImm_eq rd n 0b0010111
  rw [encodeU_eq] at himm
  change (decode (encodeU _ _ _).toNat imm).Of _ _ _ _
  rw [encodeU_eq]
  refine (congrArg (Decoded.Of · _ _ _ _) (decode_AUIPC _ _ _ _ _ imm)).mpr ?_
  exact endDecode_of rfl rfl rfl rfl rfl himm

theorem upperFunct12_eq (n : BitVec 20) :
    (n.extractLsb' 13 7).toNat * 32 + (n.extractLsb' 8 5).toNat = n.toNat / 2 ^ 8 := by
  rw [toNat_extractLsb'_eq, toNat_extractLsb'_eq]
  omega

theorem jalOffset_eq (n : BitVec 20) (opcode : BitVec 7) :
    opAnd (opShr (encodeU (scrambleJ n) rd opcode).toNat 11) 0b100000000000000000000 +
        opAnd (encodeU (scrambleJ n) rd opcode).toNat 0b011111111000000000000 +
        opAnd (opShr (encodeU (scrambleJ n) rd opcode).toNat 9) 0b000000000100000000000 +
        opAnd (((scrambleJ n).extractLsb' 13 7).toNat * 32 + ((scrambleJ n).extractLsb' 8 5).toNat)
          0b000000000011111111110 =
      (n ++ 0#1).toNat := by
  have hd := rd.isLt
  have ho := opcode.isLt
  obtain ⟨a, b, c, d, ha, hb, hc, hd', hparts⟩ : ∃ a b c d : Nat, a < 2 ∧ b < 256 ∧ c < 2 ∧ d < 1024 ∧
      n.toNat = a * 2 ^ 19 + b * 2 ^ 11 + c * 2 ^ 10 + d :=
    ⟨n.toNat / 2 ^ 19, n.toNat / 2 ^ 11 % 256, n.toNat / 2 ^ 10 % 2, n.toNat % 1024,
      by have := n.isLt; omega, by omega, by omega, by omega, by omega⟩
  have hs := scrambleJ_toNat ha hb hc hd' hparts
  have hv := encodeU_toNat rd (scrambleJ n) opcode
  have hf : (((scrambleJ n).extractLsb' 13 7).toNat * 32 + ((scrambleJ n).extractLsb' 8 5).toNat : Int) =
      a * 2 ^ 11 + d * 2 + c := by
    have h := upperFunct12_eq (scrambleJ n)
    rw [hs, show (a * 2 ^ 19 + d * 2 ^ 9 + c * 2 ^ 8 + b) / 2 ^ 8 = a * 2 ^ 11 + d * 2 + c by omega] at h
    exact_mod_cast h
  rw [hs] at hv
  rw [hf, append_zero_toNat, hparts]
  clear hf hs hparts
  generalize (encodeU (scrambleJ n) rd opcode).toNat = v at hv ⊢
  have hv' : (v : Int) = ((a * 2 ^ 19 + d * 2 ^ 9 + c * 2 ^ 8 + b) * 2 ^ 12 + rd.toNat * 2 ^ 7 +
    opcode.toNat) := by rw [hv]; push_cast; ring
  clear hv
  have h20 : (v : Int) / 2 ^ 11 / 2 ^ 20 % 2 ^ 1 = a := by
    rw [Int.ediv_ediv_of_nonneg (by norm_num), ← pow_add]
    exact ediv_emod_of_eq 0 a ((d * 2 ^ 9 + c * 2 ^ 8 + b) * 2 ^ 12 + rd.toNat * 2 ^ 7 + opcode.toNat)
      _ 1 (by rw [hv']; ring) (by omega) (by omega)
  have h19 : (v : Int) / 2 ^ 12 % 2 ^ 8 = b :=
    ediv_emod_of_eq (a * 2 ^ 11 + d * 2 + c) b (rd.toNat * 2 ^ 7 + opcode.toNat) 12 8
      (by rw [hv']; ring) (by omega) (by omega)
  have h11 : (v : Int) / 2 ^ 9 / 2 ^ 11 % 2 ^ 1 = c := by
    rw [Int.ediv_ediv_of_nonneg (by norm_num), ← pow_add]
    exact ediv_emod_of_eq (a * 2 ^ 10 + d) c (b * 2 ^ 12 + rd.toNat * 2 ^ 7 + opcode.toNat) _ 1
      (by rw [hv']; ring) (by omega) (by omega)
  have h10 : ((a : Int) * 2 ^ 11 + d * 2 + c) / 2 ^ 1 % 2 ^ 10 = d :=
    ediv_emod_of_eq a d c 1 10 (by ring) (by omega) (by omega)
  rw [show opShr v 11 = v / 2 ^ 11 from opShr_eq v 11 (by decide) (by omega) (by omega),
    show opShr v 9 = v / 2 ^ 9 from opShr_eq v 9 (by decide) (by omega) (by omega),
    opAnd_mask _ 20 1 (by norm_num) (by norm_num), opAnd_mask _ 12 8 (by norm_num) (by norm_num),
    opAnd_mask _ 11 1 (by norm_num) (by norm_num), opAnd_mask _ 1 10 (by norm_num) (by norm_num),
    h20, h19, h11, h10]
  push_cast
  ring

theorem jal_of (n : BitVec 20) :
    (decode (Instr.jal rd n).encode.toNat imm).Of (.jal rd n)
      ((scrambleJ n).extractLsb' 8 5) ((scrambleJ n).extractLsb' 3 5) rd := by
  have himm := jalOffset_eq rd n 0b1101111
  have hext := extendSign_toNat (k := 20) (by decide) (n ++ 0#1)
  rw [← himm, encodeU_eq] at hext
  change (decode (encodeJ _ _ _).toNat imm).Of _ _ _ _
  rw [encodeJ_eq, encodeU_eq]
  refine (congrArg (Decoded.Of · _ _ _ _) (decode_JAL _ _ _ _ _ imm)).mpr ?_
  exact endDecode_of rfl rfl rfl rfl rfl hext.symm

theorem branchOffset_eq (n : BitVec 12) (funct3 : BitVec 3) (opcode : BitVec 7) :
    opAnd (opShr (encodeB n rs2 rs1 funct3 opcode).toNat 19) 0b1000000000000 +
        opAnd (opShl (encodeB n rs2 rs1 funct3 opcode).toNat 4) 0b0100000000000 +
        opAnd ((n.extractLsb' 11 1 ++ n.extractLsb' 4 6).toNat * 32 + rs2.toNat) 0b0011111100000 +
        opAnd (n.extractLsb' 0 4 ++ n.extractLsb' 10 1).toNat 0b0000000011110 =
      (n ++ 0#1).toNat := by
  have hn := n.isLt
  have h2 := rs2.isLt
  have h1 := rs1.isLt
  have h3 := funct3.isLt
  have ho := opcode.isLt
  obtain ⟨a, b, c, d, ha, hb, hc, hd', hparts⟩ : ∃ a b c d : Nat, a < 2 ∧ b < 2 ∧ c < 64 ∧ d < 16 ∧
      n.toNat = a * 2 ^ 11 + b * 2 ^ 10 + c * 2 ^ 4 + d :=
    ⟨n.toNat / 2 ^ 11, n.toNat / 2 ^ 10 % 2, n.toNat / 2 ^ 4 % 64, n.toNat % 16, by omega,
      by omega, by omega, by omega, by omega⟩
  have hhigh : (n.extractLsb' 11 1 ++ n.extractLsb' 4 6).toNat = a * 64 + c := by
    rw [toNat_append_eq, toNat_extractLsb'_eq, toNat_extractLsb'_eq, hparts]
    omega
  have hlow : (n.extractLsb' 0 4 ++ n.extractLsb' 10 1).toNat = d * 2 + b := by
    rw [toNat_append_eq, toNat_extractLsb'_eq, toNat_extractLsb'_eq, hparts]
    omega
  have hv := encodeR_toNat (n.extractLsb' 11 1 ++ n.extractLsb' 4 6) rs2 rs1 funct3
    (n.extractLsb' 0 4 ++ n.extractLsb' 10 1) opcode
  rw [← encodeB_eq, hhigh, hlow] at hv
  rw [hhigh, hlow]
  generalize (encodeB n rs2 rs1 funct3 opcode).toNat = v at hv ⊢
  have hv' : (v : Int) = (a * 64 + c) * 2 ^ 25 + rs2.toNat * 2 ^ 20 + rs1.toNat * 2 ^ 15 +
    funct3.toNat * 2 ^ 12 + (d * 2 + b) * 2 ^ 7 + opcode.toNat := by rw [hv]; push_cast; ring
  clear hv hhigh hlow
  have h12 : (v : Int) / 2 ^ 19 / 2 ^ 12 % 2 ^ 1 = a := by
    rw [Int.ediv_ediv_of_nonneg (by norm_num), ← pow_add]
    exact ediv_emod_of_eq 0 a (c * 2 ^ 25 + rs2.toNat * 2 ^ 20 + rs1.toNat * 2 ^ 15 +
      funct3.toNat * 2 ^ 12 + (d * 2 + b) * 2 ^ 7 + opcode.toNat) _ 1
      (by rw [hv']; ring) (by omega) (by omega)
  have h11 : (v : Int) * 2 ^ 4 / 2 ^ 11 % 2 ^ 1 = b :=
    ediv_emod_of_eq ((a * 64 + c) * 2 ^ 17 + rs2.toNat * 2 ^ 12 + rs1.toNat * 2 ^ 7 +
      funct3.toNat * 2 ^ 4 + d) b (opcode.toNat * 2 ^ 4) 11 1
      (by rw [hv']; ring) (by omega) (by omega)
  have h5 : (((a * 64 + c : Nat) : Int) * 32 + rs2.toNat) / 2 ^ 5 % 2 ^ 6 = c :=
    ediv_emod_of_eq a c rs2.toNat 5 6 (by push_cast; ring) (by omega) (by omega)
  have h1' : ((d * 2 + b : Nat) : Int) / 2 ^ 1 % 2 ^ 4 = d :=
    ediv_emod_of_eq 0 d b 1 4 (by push_cast; ring) (by omega) (by omega)
  rw [show opShr v 19 = v / 2 ^ 19 from opShr_eq v 19 (by decide) (by omega) (by omega),
    show opShl v 4 = v * 2 ^ 4 from opShl_eq v 4 (by decide) (by omega) (by omega),
    opAnd_mask _ 12 1 (by norm_num) (by norm_num), opAnd_mask _ 11 1 (by norm_num) (by norm_num),
    opAnd_mask _ 5 6 (by norm_num) (by norm_num), opAnd_mask _ 1 4 (by norm_num) (by norm_num),
    h12, h11, h5, h1', append_zero_toNat, hparts]
  push_cast
  ring

theorem branch_of (op : BranchOp) (n : BitVec 12) :
    (decode (Instr.branch op rs1 rs2 n).encode.toNat imm).Of (.branch op rs1 rs2 n)
      rs2 rs1 (n.extractLsb' 0 4 ++ n.extractLsb' 10 1) := by
  have himm := branchOffset_eq rs1 rs2 n op.funct3 0b1100011
  have hext := extendSign_toNat (k := 12) (by decide) (n ++ 0#1)
  rw [← himm, encodeB_eq] at hext
  change (decode (encodeB _ _ _ _ _).toNat imm).Of _ _ _ _
  rw [encodeB_eq]
  refine (congrArg (Decoded.Of · _ _ _ _) (decode_BRANCH _ _ _ _ _ imm)).mpr ?_
  cases op
  all_goals exact endDecode_of rfl rfl rfl rfl rfl hext.symm

end Instructions

/-- Every encoded instruction is decoded as that instruction. -/
theorem decode_encode (i : Instr) (imm : Int) :
    ∃ rs2 rs1 rd, (decode i.encode.toNat imm).Of i rs2 rs1 rd := by
  cases i with
  | lui rd n => exact ⟨_, _, _, lui_of imm rd n⟩
  | auipc rd n => exact ⟨_, _, _, auipc_of imm rd n⟩
  | jal rd n => exact ⟨_, _, _, jal_of imm rd n⟩
  | jalr rd rs1 n => exact ⟨_, _, _, jalr_of imm rd rs1 n⟩
  | branch op rs1 rs2 n => exact ⟨_, _, _, branch_of imm rs1 rs2 op n⟩
  | load op rd rs1 n => exact ⟨_, _, _, load_of imm rd rs1 op n⟩
  | store op rs1 rs2 n => exact ⟨_, _, _, store_of imm rs1 rs2 op n⟩
  | opImm op rd rs1 n => exact ⟨_, _, _, opImm_of imm rd rs1 op n⟩
  | shiftImm op rd rs1 shamt => exact ⟨_, _, _, shiftImm_of imm rd rs1 op shamt⟩
  | opReg op rd rs1 rs2 => exact ⟨_, _, _, opReg_of imm rd rs1 rs2 op⟩
  | fence rd rs1 n => exact ⟨_, _, _, fence_of imm rd rs1 n⟩
  | fenceI rd rs1 n => exact ⟨_, _, _, fenceI_of imm rd rs1 n⟩
  | lr order rd rs1 => exact ⟨_, _, _, lr_of imm rd rs1 order⟩
  | sc order rd rs1 rs2 => exact ⟨_, _, _, sc_of imm rd rs1 rs2 order⟩
  | amo op order rd rs1 rs2 => exact ⟨_, _, _, amo_of imm rd rs1 rs2 op order⟩
  | csr op rd rs1 n => exact ⟨_, _, _, csr_of imm rd rs1 op n⟩
  | ecall => exact ⟨_, _, _, ecall_of imm⟩
  | ebreak => exact ⟨_, _, _, ebreak_of imm⟩
  | wfi => exact ⟨_, _, _, wfi_of imm⟩
  | sret => exact ⟨_, _, _, sret_of imm⟩
  | mret => exact ⟨_, _, _, mret_of imm⟩
  | sfenceVma rs1 rs2 => exact ⟨_, _, _, sfenceVma_of imm rs1 rs2⟩
  | mlogsys rs1 n => exact ⟨_, _, _, mlogsys_of imm rs1 n⟩

end Mlogv32.Cpu
