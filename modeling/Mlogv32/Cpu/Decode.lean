import Mlogv32.Cpu.Labels

/-!
# Instruction decoder

`decode` and its sub-decoders, the packing of the icache payload in `end_decode` and the unpacking
in `main__read_icache`.
-/

namespace Mlogv32.Cpu
open Mlog

/-- The outputs of `decode`. `result` holds the register fields at their place in the payload. -/
structure Decoded where
  opId : Int
  imm : Int
  result : Int
  deriving DecidableEq, Repr

/-- The inputs of a sub-decoder. `imm` is the value left by an earlier instruction. -/
structure Fields where
  value : Int
  imm : Int
  result : Int
  imm40 : Int
  funct12 : Int
  funct7 : Int
  funct3 : Int
  opcode62 : Int

/-! ## End of decoding -/

def endDecode (opId imm result : Int) : Decoded :=
  { opId := opId, imm := opAnd imm 0xffffffff, result := result }

/-- 0 is the illegal op_id because a `null` slot reads as 0. -/
def decodeIllegalInstruction (imm result : Int) : Decoded := endDecode 0 imm result

/-! ## Sub-decoders -/

def decodeLUI_AUIPC (f : Fields) : Decoded :=
  let opId := if f.opcode62 = 0b0110100 then -53 else -8
  endDecode opId (opAnd f.value 0b11111111111111111111000000000000) f.result

def decodeJAL (f : Fields) : Decoded :=
  let imm20 := opAnd (opShr f.value 11) 0b100000000000000000000
  let imm19_12 := opAnd f.value 0b011111111000000000000
  let imm11 := opAnd (opShr f.value 9) 0b000000000100000000000
  let imm10_1 := opAnd f.funct12 0b000000000011111111110
  let imm := imm20 + imm19_12 + imm11 + imm10_1
  let imm := opXor imm 0b100000000000000000000 - 0b100000000000000000000
  endDecode (-62) imm f.result

def decodeITypeNoExtendSign (opId funct12 result : Int) : Decoded := endDecode opId funct12 result

def decodeIType (opId funct12 result : Int) : Decoded :=
  let funct12 := opXor funct12 0b100000000000 - 0b100000000000
  decodeITypeNoExtendSign opId funct12 result

def decodeJALR (f : Fields) : Decoded := decodeIType (-61) f.funct12 f.result

def decodeBRANCH (f : Fields) : Decoded :=
  if f.funct3 = 2 then decodeIllegalInstruction f.imm f.result
  else if f.funct3 = 3 then decodeIllegalInstruction f.imm f.result
  else
    let imm12 := opAnd (opShr f.value 19) 0b1000000000000
    let imm11 := opAnd (opShl f.value 4) 0b0100000000000
    let imm10_5 := opAnd f.funct12 0b0011111100000
    let imm4_1 := opAnd f.imm40 0b0000000011110
    let imm := imm12 + imm11 + imm10_5 + imm4_1
    let imm := opXor imm 0b1000000000000 - 0b1000000000000
    endDecode (-64 + f.funct3) imm f.result

def decodeLOAD (f : Fields) : Decoded :=
  if f.funct3 = 3 then decodeIllegalInstruction f.imm f.result
  else if f.funct3 < 6 then decodeIType (-56 + f.funct3) f.funct12 f.result
  else decodeIllegalInstruction f.imm f.result

/-- The immediate is decoded before the check of funct3, so an illegal store changes `imm`. -/
def decodeSTORE (f : Fields) : Decoded :=
  let imm := opShl f.funct7 5 + f.imm40
  let imm := opXor imm 0b100000000000 - 0b100000000000
  if f.funct3 < 3 then endDecode (-50 + f.funct3) imm f.result
  else decodeIllegalInstruction imm f.result

def decodeAMO (f : Fields) : Decoded :=
  if f.funct3 ≠ 0b010 then decodeIllegalInstruction f.imm f.result
  else
    let funct5 := opShr f.funct7 2
    if funct5 ≤ 0b11 then endDecode (-47 + funct5) f.imm f.result
    else
      let low := opAnd funct5 0b11
      let funct5 := opShr funct5 2
      if low = 0b00 then endDecode (-44 + funct5) f.imm f.result
      else decodeIllegalInstruction f.imm f.result

def decodeSLLI (f : Fields) : Decoded :=
  if f.funct7 = 0b0000000 then decodeITypeNoExtendSign (-3) f.funct12 f.result
  else decodeIllegalInstruction f.imm f.result

def decodeSRLI_SRAI (f : Fields) : Decoded :=
  if f.funct7 = 0b0000000 then decodeITypeNoExtendSign (-2) f.funct12 f.result
  else if f.funct7 = 0b0100000 then
    decodeITypeNoExtendSign (-1) (opAnd f.funct12 0b11111) f.result
  else decodeIllegalInstruction f.imm f.result

def decodeOP_IMM (f : Fields) : Decoded :=
  if f.funct3 = 5 then decodeSRLI_SRAI f
  else if f.funct3 = 1 then decodeSLLI f
  else decodeIType (-36 + f.funct3) f.funct12 f.result

def decodeOP (f : Fields) : Decoded :=
  if f.funct7 = 0b0000000 then endDecode (-28 + f.funct3) f.imm f.result
  else if f.funct7 = 0b0000001 then endDecode (-20 + f.funct3) f.imm f.result
  else if f.funct7 ≠ 0b0100000 then decodeIllegalInstruction f.imm f.result
  else if f.funct3 = 0b000 then endDecode (-35) f.imm f.result
  else if f.funct3 = 0b101 then endDecode (-31) f.imm f.result
  else decodeIllegalInstruction f.imm f.result

def decodeMISC_MEM (f : Fields) : Decoded :=
  if f.funct3 < 2 then decodeITypeNoExtendSign (-4) f.funct12 f.result
  else decodeIllegalInstruction f.imm f.result

def decodeSYSTEM (f : Fields) : Decoded :=
  if f.funct3 ≠ 4 then decodeITypeNoExtendSign (-12 + f.funct3) f.funct12 f.result
  else decodeIllegalInstruction f.imm f.result

def decodeCustom0 (f : Fields) : Decoded :=
  if f.funct3 < 1 then decodeITypeNoExtendSign (1 + f.funct3) f.funct12 f.result
  else decodeIllegalInstruction f.imm f.result

/-! ## Entry point -/

/-- The sub-decoder at a label of LABELS. LABELS holds only decoders at the indices that
opcode[6:2] can take. -/
def decodeAt (label : Option Label) (f : Fields) : Decoded :=
  match label with
  | some .decode_LOAD => decodeLOAD f
  | some .decode_custom_0 => decodeCustom0 f
  | some .decode_MISC_MEM => decodeMISC_MEM f
  | some .decode_OP_IMM => decodeOP_IMM f
  | some .decode_AUIPC => decodeLUI_AUIPC f
  | some .decode_STORE => decodeSTORE f
  | some .decode_AMO => decodeAMO f
  | some .decode_OP => decodeOP f
  | some .decode_LUI => decodeLUI_AUIPC f
  | some .decode_BRANCH => decodeBRANCH f
  | some .decode_JALR => decodeJALR f
  | some .decode_JAL => decodeJAL f
  | some .decode_SYSTEM => decodeSYSTEM f
  | _ => decodeIllegalInstruction f.imm f.result

/-- `decode`, up to the test of `address`. -/
def decode (value imm : Int) : Decoded :=
  let result := opAnd value 0b1111111111000000000000000
  if opAnd value 0b11 ≠ 0b11 then decodeIllegalInstruction imm result
  else
    let instruction11_7 := opAnd value 0b0000000000000111110000000
    let result := opShl result 22 + opShl instruction11_7 25
    let funct12 := opShr value 20
    let opcode62 := opAnd value 0b1111100
    decodeAt (labels opcode62)
      { value := value
        imm := imm
        result := result
        imm40 := opShr instruction11_7 7
        funct12 := funct12
        funct7 := opShr funct12 5
        funct3 := opAnd (opShr value 12) 0b111
        opcode62 := opcode62 }

/-! ## The icache payload -/

/-- Pack op_id, the registers (already in `result`) and imm into one double. -/
def Decoded.payload (d : Decoded) : Int :=
  opOr (opOr d.result (opShl d.opId 47)) d.imm

/-- The variables that `main` has set when it reads the source registers. `result` is the value that
FENCE inspects. -/
structure Fetched where
  opId : Int
  imm : Int
  result : Int
  rdId : Int
  rs1Id : Int
  rs2Id : Int
  deriving DecidableEq, Repr

/-- The point of `main__read_icache` where the slow path continues: unpack the register fields. -/
def unpackRegisters (opId imm result : Int) : Fetched :=
  { opId := opId
    imm := imm
    result := result
    rdId := opAnd (opShr result 32) 0b11111
    rs1Id := opAnd (opShr result 37) 0b11111
    rs2Id := opAnd (opShr result 42) 0b11111 }

/-- `main__read_icache` after the slot has been read into `result`. -/
def readIcache (result : Int) : Fetched :=
  unpackRegisters (opShr result 47) (opAnd result 0xffffffff) result

/-- The end of `main__slow_instruction_fetch`: decode with `address` set to null. -/
def slowFetch (value imm : Int) : Fetched :=
  let d := decode value imm
  unpackRegisters d.opId d.imm d.result

end Mlogv32.Cpu
