import Mlogv32.Isa.Encoding

/-!
# Integer instructions

The results of the integer instructions on 32-bit words, and the conditions of the branches.
-/

namespace Mlogv32.Isa

/-- The upper word of a product. -/
def upperWord (product : Int) : Word := BitVec.ofInt 32 (product / 2 ^ 32)

/-- A shift takes the low five bits of its second operand. Division by zero does not trap. -/
def RegOp.result (op : RegOp) (x y : Word) : Word :=
  match op with
  | .add => x + y
  | .sub => x - y
  | .sll => x <<< (y.toNat % 32)
  | .slt => if x.slt y then 1 else 0
  | .sltu => if x.ult y then 1 else 0
  | .xor => x ^^^ y
  | .srl => x >>> (y.toNat % 32)
  | .sra => x.sshiftRight (y.toNat % 32)
  | .or => x ||| y
  | .and => x &&& y
  | .mul => x * y
  | .mulh => upperWord (x.toInt * y.toInt)
  | .mulhsu => upperWord (x.toInt * y.toNat)
  | .mulhu => upperWord (x.toNat * y.toNat)
  | .div => if y = 0 then -1 else x.sdiv y
  | .divu => if y = 0 then -1 else x.udiv y
  | .rem => if y = 0 then x else x.srem y
  | .remu => if y = 0 then x else x.umod y

/-- The multiplications and divisions. -/
def RegOp.isM (op : RegOp) : Bool := op.funct7 = 0b0000001

def RegOp.isMul (op : RegOp) : Bool := op ∈ [.mul, .mulh, .mulhsu, .mulhu]

/-- The instruction on two registers that computes the same. -/
def ImmOp.regOp : ImmOp → RegOp
  | .addi => .add
  | .slti => .slt
  | .sltiu => .sltu
  | .xori => .xor
  | .ori => .or
  | .andi => .and

def ShiftOp.regOp : ShiftOp → RegOp
  | .slli => .sll
  | .srli => .srl
  | .srai => .sra

def BranchOp.holds (op : BranchOp) (x y : Word) : Bool :=
  match op with
  | .beq => x = y
  | .bne => x ≠ y
  | .blt => x.slt y
  | .bge => !x.slt y
  | .bltu => x.ult y
  | .bgeu => !x.ult y

def Instr.isM : Instr → Bool
  | .opReg op _ _ _ => op.isM
  | _ => false

/-- The word that an integer instruction writes to `rd`, for the values of its registers. -/
def Instr.result (pc x y : Word) : Instr → Option Word
  | .lui _ imm => some (imm ++ 0#12)
  | .auipc _ imm => some ((imm ++ 0#12) + pc)
  | .opImm op _ _ imm => some (op.regOp.result x (imm.signExtend 32))
  | .shiftImm op _ _ shamt => some (op.regOp.result x (shamt.setWidth 32))
  | .opReg op _ _ _ => some (op.result x y)
  | _ => none

/-! ## Corner cases -/

/-- The smallest number divided by -1 is the number itself. -/
example : RegOp.div.result 0x80000000 0xffffffff = 0x80000000 := by decide

example : RegOp.rem.result 0x80000000 0xffffffff = 0 := by decide

end Mlogv32.Isa
