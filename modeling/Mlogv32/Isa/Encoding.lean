import Mathlib

/-!
# Instruction encodings

The encodings of RV32IMA_Zicsr_Zifencei_Zihintpause, of the privileged instructions and of MLOGSYS.
A word is legal if it is the encoding of an instruction.
-/

namespace Mlogv32.Isa

abbrev Word := BitVec 32

/-- The number of a register. -/
abbrev Reg := BitVec 5

/-! ## Formats -/

def encodeR (funct7 : BitVec 7) (rs2 rs1 : Reg) (funct3 : BitVec 3) (rd : Reg) (opcode : BitVec 7) :
    Word :=
  funct7 ++ rs2 ++ rs1 ++ funct3 ++ rd ++ opcode

def encodeI (imm : BitVec 12) (rs1 : Reg) (funct3 : BitVec 3) (rd : Reg) (opcode : BitVec 7) : Word :=
  imm ++ rs1 ++ funct3 ++ rd ++ opcode

def encodeS (imm : BitVec 12) (rs2 rs1 : Reg) (funct3 : BitVec 3) (opcode : BitVec 7) : Word :=
  imm.extractLsb' 5 7 ++ rs2 ++ rs1 ++ funct3 ++ imm.extractLsb' 0 5 ++ opcode

/-- `imm` holds the bits 12 to 1 of the offset. -/
def encodeB (imm : BitVec 12) (rs2 rs1 : Reg) (funct3 : BitVec 3) (opcode : BitVec 7) : Word :=
  imm.extractLsb' 11 1 ++ imm.extractLsb' 4 6 ++ rs2 ++ rs1 ++ funct3 ++ imm.extractLsb' 0 4 ++
    imm.extractLsb' 10 1 ++ opcode

/-- `imm` holds the bits 31 to 12 of the immediate. -/
def encodeU (imm : BitVec 20) (rd : Reg) (opcode : BitVec 7) : Word := imm ++ rd ++ opcode

/-- `imm` holds the bits 20 to 1 of the offset. -/
def encodeJ (imm : BitVec 20) (rd : Reg) (opcode : BitVec 7) : Word :=
  imm.extractLsb' 19 1 ++ imm.extractLsb' 0 10 ++ imm.extractLsb' 10 1 ++ imm.extractLsb' 11 8 ++ rd ++
    opcode

/-! ## Instructions -/

inductive BranchOp where
  | beq | bne | blt | bge | bltu | bgeu
  deriving DecidableEq, Repr

def BranchOp.funct3 : BranchOp → BitVec 3
  | .beq => 0b000
  | .bne => 0b001
  | .blt => 0b100
  | .bge => 0b101
  | .bltu => 0b110
  | .bgeu => 0b111

inductive LoadOp where
  | lb | lh | lw | lbu | lhu
  deriving DecidableEq, Repr

def LoadOp.funct3 : LoadOp → BitVec 3
  | .lb => 0b000
  | .lh => 0b001
  | .lw => 0b010
  | .lbu => 0b100
  | .lhu => 0b101

inductive StoreOp where
  | sb | sh | sw
  deriving DecidableEq, Repr

def StoreOp.funct3 : StoreOp → BitVec 3
  | .sb => 0b000
  | .sh => 0b001
  | .sw => 0b010

inductive ImmOp where
  | addi | slti | sltiu | xori | ori | andi
  deriving DecidableEq, Repr

def ImmOp.funct3 : ImmOp → BitVec 3
  | .addi => 0b000
  | .slti => 0b010
  | .sltiu => 0b011
  | .xori => 0b100
  | .ori => 0b110
  | .andi => 0b111

inductive ShiftOp where
  | slli | srli | srai
  deriving DecidableEq, Repr

def ShiftOp.funct3 : ShiftOp → BitVec 3
  | .slli => 0b001
  | .srli => 0b101
  | .srai => 0b101

def ShiftOp.funct7 : ShiftOp → BitVec 7
  | .srai => 0b0100000
  | _ => 0b0000000

inductive RegOp where
  | add | sub | sll | slt | sltu | xor | srl | sra | or | and
  | mul | mulh | mulhsu | mulhu | div | divu | rem | remu
  deriving DecidableEq, Repr

def RegOp.funct3 : RegOp → BitVec 3
  | .add => 0b000
  | .sub => 0b000
  | .sll => 0b001
  | .slt => 0b010
  | .sltu => 0b011
  | .xor => 0b100
  | .srl => 0b101
  | .sra => 0b101
  | .or => 0b110
  | .and => 0b111
  | .mul => 0b000
  | .mulh => 0b001
  | .mulhsu => 0b010
  | .mulhu => 0b011
  | .div => 0b100
  | .divu => 0b101
  | .rem => 0b110
  | .remu => 0b111

def RegOp.funct7 : RegOp → BitVec 7
  | .sub | .sra => 0b0100000
  | .mul | .mulh | .mulhsu | .mulhu | .div | .divu | .rem | .remu => 0b0000001
  | _ => 0b0000000

inductive AmoOp where
  | amoadd | amoswap | amoxor | amoor | amoand | amomin | amomax | amominu | amomaxu
  deriving DecidableEq, Repr

def AmoOp.funct5 : AmoOp → BitVec 5
  | .amoadd => 0b00000
  | .amoswap => 0b00001
  | .amoxor => 0b00100
  | .amoor => 0b01000
  | .amoand => 0b01100
  | .amomin => 0b10000
  | .amomax => 0b10100
  | .amominu => 0b11000
  | .amomaxu => 0b11100

inductive CsrOp where
  | csrrw | csrrs | csrrc | csrrwi | csrrsi | csrrci
  deriving DecidableEq, Repr

def CsrOp.funct3 : CsrOp → BitVec 3
  | .csrrw => 0b001
  | .csrrs => 0b010
  | .csrrc => 0b011
  | .csrrwi => 0b101
  | .csrrsi => 0b110
  | .csrrci => 0b111

/-- The instructions. FENCE and FENCE.I have fields that an implementation ignores. PAUSE is a
FENCE. `order` holds the bits aq and rl of an atomic. -/
inductive Instr where
  | lui (rd : Reg) (imm : BitVec 20)
  | auipc (rd : Reg) (imm : BitVec 20)
  | jal (rd : Reg) (imm : BitVec 20)
  | jalr (rd rs1 : Reg) (imm : BitVec 12)
  | branch (op : BranchOp) (rs1 rs2 : Reg) (imm : BitVec 12)
  | load (op : LoadOp) (rd rs1 : Reg) (imm : BitVec 12)
  | store (op : StoreOp) (rs1 rs2 : Reg) (imm : BitVec 12)
  | opImm (op : ImmOp) (rd rs1 : Reg) (imm : BitVec 12)
  | shiftImm (op : ShiftOp) (rd rs1 : Reg) (shamt : BitVec 5)
  | opReg (op : RegOp) (rd rs1 rs2 : Reg)
  | fence (rd rs1 : Reg) (imm : BitVec 12)
  | fenceI (rd rs1 : Reg) (imm : BitVec 12)
  | lr (order : BitVec 2) (rd rs1 : Reg)
  | sc (order : BitVec 2) (rd rs1 rs2 : Reg)
  | amo (op : AmoOp) (order : BitVec 2) (rd rs1 rs2 : Reg)
  | csr (op : CsrOp) (rd rs1 : Reg) (n : BitVec 12)
  | ecall
  | ebreak
  | wfi
  | sret
  | mret
  | sfenceVma (rs1 rs2 : Reg)
  | mlogsys (rs1 : Reg) (funct12 : BitVec 12)

def opcodeAMO : BitVec 7 := 0b0101111
def opcodeSYSTEM : BitVec 7 := 0b1110011
def opcodeMISC_MEM : BitVec 7 := 0b0001111

/-- A privileged instruction without operands. -/
def encodePriv (funct12 : BitVec 12) : Word := encodeI funct12 0 0 0 opcodeSYSTEM

def Instr.encode : Instr → Word
  | .lui rd imm => encodeU imm rd 0b0110111
  | .auipc rd imm => encodeU imm rd 0b0010111
  | .jal rd imm => encodeJ imm rd 0b1101111
  | .jalr rd rs1 imm => encodeI imm rs1 0b000 rd 0b1100111
  | .branch op rs1 rs2 imm => encodeB imm rs2 rs1 op.funct3 0b1100011
  | .load op rd rs1 imm => encodeI imm rs1 op.funct3 rd 0b0000011
  | .store op rs1 rs2 imm => encodeS imm rs2 rs1 op.funct3 0b0100011
  | .opImm op rd rs1 imm => encodeI imm rs1 op.funct3 rd 0b0010011
  | .shiftImm op rd rs1 shamt => encodeR op.funct7 shamt rs1 op.funct3 rd 0b0010011
  | .opReg op rd rs1 rs2 => encodeR op.funct7 rs2 rs1 op.funct3 rd 0b0110011
  | .fence rd rs1 imm => encodeI imm rs1 0b000 rd opcodeMISC_MEM
  | .fenceI rd rs1 imm => encodeI imm rs1 0b001 rd opcodeMISC_MEM
  | .lr order rd rs1 => encodeR (0b00010#5 ++ order) 0 rs1 0b010 rd opcodeAMO
  | .sc order rd rs1 rs2 => encodeR (0b00011#5 ++ order) rs2 rs1 0b010 rd opcodeAMO
  | .amo op order rd rs1 rs2 => encodeR (op.funct5 ++ order) rs2 rs1 0b010 rd opcodeAMO
  | .csr op rd rs1 n => encodeI n rs1 op.funct3 rd opcodeSYSTEM
  | .ecall => encodePriv 0b000000000000
  | .ebreak => encodePriv 0b000000000001
  | .wfi => encodePriv 0b000100000101
  | .sret => encodePriv 0b000100000010
  | .mret => encodePriv 0b001100000010
  | .sfenceVma rs1 rs2 => encodeR 0b0001001 rs2 rs1 0b000 0 opcodeSYSTEM
  | .mlogsys rs1 funct12 => encodeI funct12 rs1 0b000 0 0b0001011

/-- The word is the encoding of an instruction. -/
def Legal (w : Word) : Prop := ∃ i : Instr, i.encode = w

/-! ## Operands -/

/-- The destination register. -/
def Instr.rd : Instr → Option Reg
  | .lui rd _ | .auipc rd _ | .jal rd _ | .jalr rd _ _ | .load _ rd _ _ | .opImm _ rd _ _
  | .shiftImm _ rd _ _ | .opReg _ rd _ _ | .fence rd _ _ | .fenceI rd _ _ | .lr _ rd _
  | .sc _ rd _ _ | .amo _ _ rd _ _ | .csr _ rd _ _ => some rd
  | _ => none

/-- The first source register. The immediate forms of the CSR instructions have a number there. -/
def Instr.rs1 : Instr → Option Reg
  | .jalr _ rs1 _ | .branch _ rs1 _ _ | .load _ _ rs1 _ | .store _ rs1 _ _ | .opImm _ _ rs1 _
  | .shiftImm _ _ rs1 _ | .opReg _ _ rs1 _ | .fence _ rs1 _ | .fenceI _ rs1 _ | .lr _ _ rs1
  | .sc _ _ rs1 _ | .amo _ _ _ rs1 _ | .csr _ _ rs1 _ | .sfenceVma rs1 _ | .mlogsys rs1 _ => some rs1
  | _ => none

def Instr.rs2 : Instr → Option Reg
  | .branch _ _ rs2 _ | .store _ _ rs2 _ | .opReg _ _ _ rs2 | .sc _ _ _ rs2 | .amo _ _ _ _ rs2
  | .sfenceVma _ rs2 => some rs2
  | _ => none

/-- The immediate as a 32-bit value. -/
def Instr.imm : Instr → Option Word
  | .lui _ imm | .auipc _ imm => some (imm ++ 0#12)
  | .jal _ imm => some ((imm ++ 0#1).signExtend 32)
  | .branch _ _ _ imm => some ((imm ++ 0#1).signExtend 32)
  | .jalr _ _ imm | .load _ _ _ imm | .store _ _ _ imm | .opImm _ _ _ imm => some (imm.signExtend 32)
  | .shiftImm _ _ _ shamt => some (shamt.setWidth 32)
  | .fence _ _ imm | .fenceI _ _ imm => some (imm.setWidth 32)
  | .csr _ _ _ n => some (n.setWidth 32)
  | .mlogsys _ funct12 => some (funct12.setWidth 32)
  | .ecall => some 0b000000000000
  | .ebreak => some 0b000000000001
  | .wfi => some 0b000100000101
  | .sret => some 0b000100000010
  | .mret => some 0b001100000010
  | .sfenceVma _ rs2 => some ((0b0001001#7 ++ rs2).setWidth 32)
  | .opReg .. | .lr .. | .sc .. | .amo .. => none

end Mlogv32.Isa
