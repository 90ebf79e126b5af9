import Mlogv32.Cpu.Handlers
import Mlogv32.Mlog.Steps

/-!
# The operations of the integer handlers

The handlers that compute `rd`, operation by operation. A handler that falls through into another
one goes on with the operands it has rewritten. DIV and REM are left out: `op div` has no integer
result.
-/

namespace Mlogv32.Cpu
open Mlog

def truncatedRdSteps (rd : Int) : Steps Int := step (opAnd rd 0xffffffff)

def unsignedToSignedSteps (rs : Int) : Steps Int :=
  if rs < 0x80000000 then pure rs else step (rs - 0x100000000)

def auipcSteps (imm pc : Int) : Steps Int := do truncatedRdSteps (← step (imm + pc))

def addiSteps (rs1 imm : Int) : Steps Int := do truncatedRdSteps (← step (rs1 + imm))

def subSteps (rs1 rs2 : Int) : Steps Int := do
  let rs2 ← step (0x100000000 - rs2)
  let rs2 ← step (opMod rs2 0x100000000)
  addiSteps rs1 rs2

def sltiuSteps (rs1 imm : Int) : Steps Int := step (opBool (rs1 < imm))

def sltSteps (rs1 rs2 : Int) : Steps Int := do
  let rs1 ← unsignedToSignedSteps rs1
  let rs2 ← unsignedToSignedSteps rs2
  sltiuSteps rs1 rs2

def slliSteps (rs1 imm : Int) : Steps Int := do
  let length ← step (32 - imm)
  let divisor ← step (opPow 2 length)
  let rd ← step (opMod rs1 divisor)
  step (opShl rd imm)

def sllSteps (rs1 rs2 : Int) : Steps Int := do slliSteps rs1 (← step (opMod rs2 32))

def srlSteps (rs1 rs2 : Int) : Steps Int := do step (opShr rs1 (← step (opMod rs2 32)))

def extendSignRdSteps (rd length : Int) : Steps Int := do
  let mask ← step (length - 1)
  let mask ← step (opShl 1 mask)
  let rd ← step (opXor rd mask)
  let rd ← step (rd - mask)
  truncatedRdSteps rd

def sraiSteps (rs1 imm : Int) : Steps Int := do
  let rd ← step (opShr rs1 imm)
  let length ← step (32 - imm)
  extendSignRdSteps rd length

def sraSteps (rs1 rs2 : Int) : Steps Int := do sraiSteps rs1 (← step (opMod rs2 32))

def mulDecompSteps (rs1 rs2 : Int) : Steps MulDecomp := do
  let rs1High ← step (opShr rs1 16)
  let rs1Low ← step (opAnd rs1 0xffff)
  let rs2High ← step (opShr rs2 16)
  let rs2Low ← step (opAnd rs2 0xffff)
  let highHigh ← step (rs1High * rs2High)
  let highLow ← step (rs1High * rs2Low)
  let lowHigh ← step (rs1Low * rs2High)
  let lowLow ← step (rs1Low * rs2Low)
  return { highHigh := highHigh, highLow := highLow, lowHigh := lowHigh, lowLow := lowLow }

def mulSteps (rs1 rs2 : Int) : Steps Int := do
  let m ← mulDecompSteps rs1 rs2
  let rd ← step (m.highLow + m.lowHigh)
  let rd ← step (opShl rd 16)
  let rd ← step (rd + m.lowLow)
  truncatedRdSteps rd

/-- The correction of `mulh_s_u` for a negative operand. -/
def mulhCorrectionSteps (rd rs negative : Int) : Steps Int :=
  if negative = 1 then step (rd - rs) else pure rd

/-- `mulh_s_u`. -/
def mulhSUSteps (rs1 rs2 nonlocal1 nonlocal2 : Int) : Steps Int := do
  let m ← mulDecompSteps rs1 rs2
  let rd ← step (opShr m.lowLow 16)
  let rd ← step (rd + m.lowHigh)
  let rd ← step (rd + m.highLow)
  let rd ← step (opShr rd 16)
  let rd ← step (rd + m.highHigh)
  let rd ← mulhCorrectionSteps rd rs2 nonlocal1
  let rd ← mulhCorrectionSteps rd rs1 nonlocal2
  truncatedRdSteps rd

def mulhSteps (rs1 rs2 : Int) : Steps Int := do
  let nonlocal2 ← step (opBool (rs2 ≥ 0x80000000))
  let nonlocal1 ← step (opBool (rs1 ≥ 0x80000000))
  mulhSUSteps rs1 rs2 nonlocal1 nonlocal2

def mulhsuSteps (rs1 rs2 : Int) : Steps Int := do
  let nonlocal1 ← step (opBool (rs1 ≥ 0x80000000))
  mulhSUSteps rs1 rs2 nonlocal1 0

def mulhuSteps (rs1 rs2 : Int) : Steps Int := mulhSUSteps rs1 rs2 0 0

/-- The operations of the handlers in `aluRd`, but for the divisions. -/
def aluSteps (label : Label) (pc rs1 rs2 imm : Int) : Option (Steps Int) :=
  match label with
  | .LUI => some (step imm)
  | .AUIPC => some (auipcSteps imm pc)
  | .ADDI => some (addiSteps rs1 imm)
  | .SLTI => some (sltSteps rs1 imm)
  | .SLTIU => some (sltiuSteps rs1 imm)
  | .XORI => some (step (opXor rs1 imm))
  | .ORI => some (step (opOr rs1 imm))
  | .ANDI => some (step (opAnd rs1 imm))
  | .SLLI => some (slliSteps rs1 imm)
  | .SRLI => some (step (opShr rs1 imm))
  | .SRAI => some (sraiSteps rs1 imm)
  | .ADD => some (addiSteps rs1 rs2)
  | .SUB => some (subSteps rs1 rs2)
  | .SLL => some (sllSteps rs1 rs2)
  | .SLT => some (sltSteps rs1 rs2)
  | .SLTU => some (sltiuSteps rs1 rs2)
  | .XOR => some (step (opXor rs1 rs2))
  | .SRL => some (srlSteps rs1 rs2)
  | .SRA => some (sraSteps rs1 rs2)
  | .OR => some (step (opOr rs1 rs2))
  | .AND => some (step (opAnd rs1 rs2))
  | .MUL => some (mulSteps rs1 rs2)
  | .MULH => some (mulhSteps rs1 rs2)
  | .MULHSU => some (mulhsuSteps rs1 rs2)
  | .MULHU => some (mulhuSteps rs1 rs2)
  | _ => none

/-- The operands that a branch handler compares, with the operations that rewrite them. -/
def branchSteps (label : Label) (rs1 rs2 : Int) : Option (Steps (Int × Int)) :=
  match label with
  | .BEQ | .BNE | .BLTU | .BGEU => some (pure (rs1, rs2))
  | .BLT | .BGE => some do
      let rs1 ← unsignedToSignedSteps rs1
      let rs2 ← unsignedToSignedSteps rs2
      return (rs1, rs2)
  | _ => none

end Mlogv32.Cpu
