import Mlogv32.Cpu.Translate

/-!
# Instruction handlers

One definition for each handler. The handlers of the integer instructions compute the value of `rd`.
The others are computations in `Op` that return the label they end at.
-/

namespace Mlogv32.Cpu
open Mlog

/-- The label a handler jumps to when it is done, with the values of `rd_id` and `rd`. -/
inductive End where
  | endInstruction
  | endInstructionWithRd (rdId rd : Int)
  | endInstructionWithRdAndFireInterrupts (rdId rd : Int)
  | endInstructionWithRdAndPollInterrupts (rdId rd : Int)
  | pauseOneTick
  /-- The worker waits for the controller to reset the hart. -/
  | reset
  /-- INCR or CSR_LABELS was overwritten, and the worker goes on in a way that is not modelled. -/
  | lost
  deriving DecidableEq, Repr

/-- The exception of `ILLEGAL_OP`. -/
def illegalOp : Trap := { mcause := 2, mtval := 0 }

/-! ## Integer instructions -/

/-- `end_instruction_with_truncated_rd`. -/
def truncatedRd (rd : Int) : Int := opAnd rd 0xffffffff

/-- `unsigned_to_signed_rs1_rs2`, on one of the two registers. -/
def unsignedToSigned (rs : Int) : Int := if rs < 0x80000000 then rs else rs - 0x100000000

def lui (imm : Int) : Int := imm

def auipc (imm pc : Int) : Int := truncatedRd (imm + pc)

def addi (rs1 imm : Int) : Int := truncatedRd (rs1 + imm)

def add (rs1 rs2 : Int) : Int := addi rs1 rs2

def sub (rs1 rs2 : Int) : Int := add rs1 (opMod (0x100000000 - rs2) 0x100000000)

def sltiu (rs1 imm : Int) : Int := opBool (rs1 < imm)

def sltu (rs1 rs2 : Int) : Int := sltiu rs1 rs2

def slt (rs1 rs2 : Int) : Int := sltu (unsignedToSigned rs1) (unsignedToSigned rs2)

def slti (rs1 imm : Int) : Int := slt rs1 imm

def xori (rs1 imm : Int) : Int := opXor rs1 imm

def xor (rs1 rs2 : Int) : Int := xori rs1 rs2

def ori (rs1 imm : Int) : Int := opOr rs1 imm

def or (rs1 rs2 : Int) : Int := ori rs1 rs2

def andi (rs1 imm : Int) : Int := opAnd rs1 imm

def and (rs1 rs2 : Int) : Int := andi rs1 rs2

def slli (rs1 imm : Int) : Int := opShl (opMod rs1 (opPow 2 (32 - imm))) imm

def sll (rs1 rs2 : Int) : Int := slli rs1 (opMod rs2 32)

def srli (rs1 imm : Int) : Int := opShr rs1 imm

def srl (rs1 rs2 : Int) : Int := srli rs1 (opMod rs2 32)

/-- `extend_sign_rd`: sign extension of a number of `length` bits. -/
def extendSignRd (rd length : Int) : Int :=
  let mask := opShl 1 (length - 1)
  truncatedRd (opXor rd mask - mask)

def srai (rs1 imm : Int) : Int := extendSignRd (opShr rs1 imm) (32 - imm)

def sra (rs1 rs2 : Int) : Int := srai rs1 (opMod rs2 32)

/-! ## Multiplication and division -/

/-- The outputs of `mul_decomp`. -/
structure MulDecomp where
  highHigh : Int
  highLow : Int
  lowHigh : Int
  lowLow : Int

def mulDecomp (rs1 rs2 : Int) : MulDecomp :=
  let rs1High := opShr rs1 16
  let rs1Low := opAnd rs1 0xffff
  let rs2High := opShr rs2 16
  let rs2Low := opAnd rs2 0xffff
  { highHigh := rs1High * rs2High
    highLow := rs1High * rs2Low
    lowHigh := rs1Low * rs2High
    lowLow := rs1Low * rs2Low }

def mul (rs1 rs2 : Int) : Int :=
  let m := mulDecomp rs1 rs2
  truncatedRd (opShl (m.highLow + m.lowHigh) 16 + m.lowLow)

def mulhSU (rs1 rs2 : Int) (rs1Negative rs2Negative : Bool) : Int :=
  let m := mulDecomp rs1 rs2
  let rd := opShr (opShr m.lowLow 16 + m.lowHigh + m.highLow) 16 + m.highHigh
  let rd := if rs1Negative then rd - rs2 else rd
  let rd := if rs2Negative then rd - rs1 else rd
  truncatedRd rd

def mulh (rs1 rs2 : Int) : Int := mulhSU rs1 rs2 (rs1 ≥ 0x80000000) (rs2 ≥ 0x80000000)

def mulhsu (rs1 rs2 : Int) : Int := mulhSU rs1 rs2 (rs1 ≥ 0x80000000) false

def mulhu (rs1 rs2 : Int) : Int := mulhSU rs1 rs2 false false

/-- `op div`, of which only the conversion to `long` is used: the quotient rounded towards zero. -/
def divu (rs1 rs2 : Int) : Int := truncatedRd (if rs2 = 0 then 0xffffffff else rs1.tdiv rs2)

def div (rs1 rs2 : Int) : Int := divu (unsignedToSigned rs1) (unsignedToSigned rs2)

def remu (rs1 rs2 : Int) : Int := truncatedRd (if rs2 = 0 then rs1 else opMod rs1 rs2)

def rem (rs1 rs2 : Int) : Int := remu (unsignedToSigned rs1) (unsignedToSigned rs2)

/-- The value of `rd` for the handlers that only compute it. -/
def aluRd (label : Label) (pc rs1 rs2 imm : Int) : Option Int :=
  match label with
  | .LUI => some (lui imm)
  | .AUIPC => some (auipc imm pc)
  | .ADDI => some (addi rs1 imm)
  | .SLTI => some (slti rs1 imm)
  | .SLTIU => some (sltiu rs1 imm)
  | .XORI => some (xori rs1 imm)
  | .ORI => some (ori rs1 imm)
  | .ANDI => some (andi rs1 imm)
  | .SLLI => some (slli rs1 imm)
  | .SRLI => some (srli rs1 imm)
  | .SRAI => some (srai rs1 imm)
  | .ADD => some (add rs1 rs2)
  | .SUB => some (sub rs1 rs2)
  | .SLL => some (sll rs1 rs2)
  | .SLT => some (slt rs1 rs2)
  | .SLTU => some (sltu rs1 rs2)
  | .XOR => some (xor rs1 rs2)
  | .SRL => some (srl rs1 rs2)
  | .SRA => some (sra rs1 rs2)
  | .OR => some (or rs1 rs2)
  | .AND => some (and rs1 rs2)
  | .MUL => some (mul rs1 rs2)
  | .MULH => some (mulh rs1 rs2)
  | .MULHSU => some (mulhsu rs1 rs2)
  | .MULHU => some (mulhu rs1 rs2)
  | .DIV => some (div rs1 rs2)
  | .DIVU => some (divu rs1 rs2)
  | .REM => some (rem rs1 rs2)
  | .REMU => some (remu rs1 rs2)
  | _ => none

/-! ## Jumps and branches -/

/-- The page, of the four pages of a RAM processor, that variable `i` is in. It is found from the
first character of the name. -/
def cursorPage (i : Nat) : Int := opAnd (variable0ToPageOffset (ramVar i).1) 0b11

/-- The cursor for a jump to `nextPc` in the page of variable `i`. -/
def jumpCursor (i : Nat) (nextPc : Int) : Value :=
  let address := cursorPage i * 4096 + opAnd nextPc 0xfff
  lookupVariable (opIdiv address 4)

def unconditionalJump (rdId nextPc : Int) : Op End := do
  let s ← get
  let nextPc := opAnd nextPc 0xffffffff
  if opMod nextPc 4 ≠ 0 then throw { mcause := 0, mtval := nextPc }
  let rd := s.pc + 4
  if s.icacheVar.isNull then
    set { s with nextPc := nextPc }
  else if opAnd s.pc 0xfffff000 ≠ opAnd nextPc 0xfffff000 then
    set { s with nextPc := nextPc, icacheVar := .null }
  else
    match s.icacheVar with
    | .var i => set { s with nextPc := nextPc, icacheVar := jumpCursor i nextPc }
    | _ => return .lost
  return .endInstructionWithRd rdId rd

def jal (rdId imm : Int) : Op End := do unconditionalJump rdId ((← get).pc + imm)

def jalr (rdId rs1 imm : Int) : Op End := unconditionalJump rdId (opAnd (rs1 + imm) 0xfffffffe)

/-- `conditional_branch` if the condition holds, which writes no register. -/
def branch (taken : Bool) (imm : Int) : Op End :=
  if taken then jal 0 imm else return .endInstruction

/-- The decision of a branch handler. -/
def branchTaken (label : Label) (rs1 rs2 : Int) : Option Bool :=
  match label with
  | .BEQ => some (rs1 = rs2)
  | .BNE => some (rs1 ≠ rs2)
  | .BLT => some (unsignedToSigned rs1 < unsignedToSigned rs2)
  | .BLTU => some (rs1 < rs2)
  | .BGE => some (unsignedToSigned rs1 ≥ unsignedToSigned rs2)
  | .BGEU => some (rs1 ≥ rs2)
  | _ => none

/-! ## Loads -/

/-- `setup_load_and_store_value`. `mcause` is the misaligned exception of the access. -/
def setupLoadAndStoreValue (cfg : PageConfig) (mcause rs1 imm length : Int) : Op Int := do
  let address := opMod (rs1 + imm) 0x100000000
  if opMod address (opIdiv length 8) ≠ 0 then throw { mcause := mcause, mtval := address }
  if (← get).effectivePrivilegeMode < 0b11 then
    translateVirtualAddress cfg { mcause := mcause + 1, mtval := address }
  else
    return address

/-- The virtual address of a load or store, which is `mtval` of its exceptions. -/
def effectiveAddress (rs1 imm : Int) : Int := opMod (rs1 + imm) 0x100000000

/-- The bytes of a loaded word that a load takes. -/
def extractValue (result address length : Int) : Int :=
  opMod (opShr result (opMod address 4 * 8)) (opPow 2 length)

/-- `load_value` after the translation, for the virtual address `mtval`. -/
def loadValueAt (cfg : PageConfig) (mtval length : Int) (signed : Bool) (address : Int) : Op Int := do
  let result ← loadWord cfg address { mcause := 5, mtval := mtval }
  let rd := extractValue result address length
  return if signed then extendSignRd rd length else rd

def loadValue (cfg : PageConfig) (d : Fetched) (rs1 length : Int) (signed : Bool) : Op End := do
  let address ← setupLoadAndStoreValue cfg 4 rs1 d.imm length
  let rd ← loadValueAt cfg (effectiveAddress rs1 d.imm) length signed address
  return .endInstructionWithRd d.rdId rd

/-! ## Stores -/

/-- Decode the value stored at an address and write the payload to its icache slot. -/
def decodeToIcache (cfg : PageConfig) (s : Hart) (address value : Int) : Hart :=
  let d := decode value s.imm
  let slot := icacheSlot cfg address
  { s with
    imm := d.imm
    procs := writeProc s.procs slot.1 slot.2 (.num d.payload) }

/-- `store_ram_word_unchecked`, with the slot found by `access_ram`. -/
def storeRamWordUnchecked (cfg : PageConfig) (address value : Int) (slot : Tile × Value)
    (rdId rd : Int) : Op End := do
  let s ← get
  let s := { s with procs := writeProc s.procs slot.1 slot.2 (.num (swapEndianness value)) }
  set (if address < cfg.icacheEnd then decodeToIcache cfg s address value else s)
  return .endInstructionWithRd rdId rd

/-- `store_mmio_word_unchecked__uart_tx`. An overflow of the FIFO is not checked. -/
def storeUartTx (s : Hart) (u : UartAccess) (value : Int) : Hart :=
  let uarts := writeUart s.uarts u.uartShift (u.txWrite + uartTxStart) value
  { s with uarts := writeUart uarts u.uartShift uartTxWrite u.nextTxWrite }

def storeUartControl (s : Hart) (u : UartAccess) (value : Int) : Hart :=
  let uartFlags := opAnd s.uartFlags (opNot (opShl 0b10000 u.uartShift))
  let uartFlags := opOr uartFlags (opShl (opAnd value 0b10000) u.uartShift)
  let uarts := if opAnd value 0b10 = 0 then s.uarts
    else writeUart s.uarts u.uartShift uartRxRead u.rxWrite
  let uarts := if opAnd value 0b01 = 0 then uarts
    else writeUart uarts u.uartShift uartTxWrite u.txRead
  { s with uartFlags := uartFlags, uarts := uarts }

/-- `store_mmio_word_unchecked`. It has no bounds check and no privilege check. -/
def storeMmioWordUnchecked (cfg : PageConfig) (address value : Int) : Op End := do
  let s ← get
  let offset := address - mmioStart
  if offset ≥ uartRxOffset then
    let u := accessUart cfg s offset
    if u.offset = uartTxOffset then
      set (storeUartTx s u value)
    else if u.offset = uartControlOffset then
      set (storeUartControl s u value)
    return .endInstruction
  else
    set (if offset = 0 then { s with csrMtime := value }
      else if offset = 4 then { s with csrMtimeh := value }
      else if offset = 8 then { s with csrMtimecmp := value }
      else { s with csrMtimecmph := value })
    return .endInstructionWithRdAndPollInterrupts 0 0

/-- `store_value__syscon`. -/
def storeSyscon (rs2 : Int) : End := if rs2 > 2 then .endInstruction else .reset

/-- The word that a store of 8 or 16 bits writes back. -/
def insertValue (result address rs2 length : Int) : Int :=
  let shift := opMod address 4 * 8
  let lengthSquared := opPow 2 length
  let bitmask := 0xffffffff - opShl (lengthSquared - 1) shift
  opAnd result bitmask + opShl (opMod rs2 lengthSquared) shift

/-- `store_value` after the translation, for the virtual address `mtval`. -/
def storeValueAt (cfg : PageConfig) (mtval rs2 length address : Int) : Op End := do
  if address = syscon then return storeSyscon rs2
  -- the fast path for 32 bits does not load the word, so nothing checks the address
  let value ← if length = 32 then pure rs2 else do
    let result ← loadRamOrMmioWord cfg address { mcause := 7, mtval := mtval }
    pure (insertValue result address rs2 length)
  let slot := accessRam cfg address
  let address := opAnd address 0xfffffffc
  if address ≥ mmioStart then storeMmioWordUnchecked cfg address value
  else storeRamWordUnchecked cfg address value slot 0 0

def storeValue (cfg : PageConfig) (d : Fetched) (rs1 rs2 length : Int) : Op End := do
  let address ← setupLoadAndStoreValue cfg 6 rs1 d.imm length
  storeValueAt cfg (effectiveAddress rs1 d.imm) rs2 length address

/-! ## Atomics -/

/-- `atomic_validate_address`. `mcause` is the misaligned exception of the access. -/
def atomicValidateAddress (cfg : PageConfig) (mcause rs1 : Int) : Op Int := do
  if opMod rs1 4 ≠ 0 then throw { mcause := mcause, mtval := rs1 }
  let trap : Trap := { mcause := mcause + 1, mtval := rs1 }
  let address ← if (← get).effectivePrivilegeMode < 0b11 then translateVirtualAddress cfg trap
    else pure rs1
  if address < ramStart then throw trap
  if address ≥ cfg.ramEnd then throw trap
  return address

def lrW (cfg : PageConfig) (d : Fetched) (rs1 : Int) : Op End := do
  let address ← atomicValidateAddress cfg 4 rs1
  let s ← get
  set { s with reservationSet := some address }
  return .endInstructionWithRd d.rdId (loadRamWordUnchecked cfg s.procs address)

def scW (cfg : PageConfig) (d : Fetched) (rs1 rs2 : Int) : Op End := do
  let address ← atomicValidateAddress cfg 6 rs1
  let s ← get
  set { s with reservationSet := none }
  if s.reservationSet = some address then
    storeRamWordUnchecked cfg address rs2 (accessRam cfg address) d.rdId 0
  else
    return .endInstructionWithRd d.rdId 1

/-- Character `op_id + 47` of `@B__DFHJNLP`, minus 64: the offset in the jump table of the AMOs. -/
def amoOp (opId : Int) : Int :=
  ([64, 66, 95, 95, 68, 70, 72, 74, 78, 76, 80] : List Int).getD (opId + 47).toNat 0 - 64

/-- The modification at an offset of the jump table. -/
def amoModify (amoOp result rs2 : Int) : Int :=
  if amoOp = 0 then result + rs2
  else if amoOp = 2 then rs2
  else if amoOp = 4 then opXor result rs2
  else if amoOp = 6 then opOr result rs2
  else if amoOp = 8 then opAnd result rs2
  else if amoOp = 10 then min (unsignedToSigned result) (unsignedToSigned rs2)
  else if amoOp = 12 then min result rs2
  else if amoOp = 14 then max (unsignedToSigned result) (unsignedToSigned rs2)
  else max result rs2

def amo (cfg : PageConfig) (d : Fetched) (rs1 rs2 : Int) : Op End := do
  let address ← atomicValidateAddress cfg 6 rs1
  let result := loadRamWordUnchecked cfg (← get).procs address
  let value := opAnd (amoModify (amoOp d.opId) result rs2) 0xffffffff
  storeRamWordUnchecked cfg address value (accessRam cfg address) d.rdId result

/-! ## FENCE and the privileged instructions -/

/-- FENCE and FENCE.I. PAUSE is told apart by the low 42 bits of the payload in `result`. -/
def fence (d : Fetched) : End :=
  if opAnd d.result 0x3ffffffffff ≠ 0b000000010000 then .endInstruction else .pauseOneTick

def wfi (s : Hart) : End :=
  if s.csrMip ≥ 0b01000000000000000000000000000000 then .endInstruction else .pauseOneTick

/-- The handlers that PRIV tells apart at run time. -/
inductive Priv where
  | ILLEGAL_OP | ECALL | EBREAK | WFI | SRET | SFENCE_VMA | MRET
  deriving DecidableEq, Repr

/-- The dispatch of PRIV. -/
def priv (imm privilegeMode : Int) : Priv :=
  if imm = 0b000000000000 then .ECALL
  else if imm = 0b000000000001 then .EBREAK
  else if imm = 0b000100000101 then .WFI
  else if privilegeMode < 0b01 then .ILLEGAL_OP
  else if imm = 0b000100000010 then .SRET
  else if opShr imm 5 = 0b0001001 then .SFENCE_VMA
  else if privilegeMode < 0b11 then .ILLEGAL_OP
  else if imm = 0b001100000010 then .MRET
  else .ILLEGAL_OP

/-- `get_effective_privilege_mode`. -/
def getEffectivePrivilegeMode (s : Hart) : Hart :=
  let mpp := opAnd (opShr s.csrMstatus 11) 0b11
  let mprv := opAnd s.csrMstatus 0b100000000000000000
  { s with effectivePrivilegeMode := if mprv = 0 then s.privilegeMode else mpp }

/-- `get_effective_privilege_mode_and_invalidate_icache`. -/
def getEffectivePrivilegeModeAndInvalidateIcache (s : Hart) : Hart :=
  getEffectivePrivilegeMode { s with icacheVar := .null }

/-- `xRET`, for the mask of the field xPIE. -/
def xRet (xpieMask : Int) (s : Hart) : Hart :=
  let xie := opShr (opAnd s.csrMstatus xpieMask) 4
  let mstatus := opOr (opOr s.csrMstatus xie) xpieMask
  let mstatus := if s.privilegeMode = 0b11 then mstatus
    else opAnd mstatus 0b11111111111111011111111111111111
  getEffectivePrivilegeModeAndInvalidateIcache
    { s with
      csrMstatus := mstatus
      csrMip := opOr s.csrMip 0b01000000000000000000000000000000 }

def sepcCsr : Nat := 0x141
def mepcCsr : Nat := 0x341

def sret (cfg : PageConfig) : Op End := do
  let s ← get
  if s.privilegeMode = 0b01 ∧ opAnd s.csrMstatus 0b10000000000000000000000 ≠ 0 then throw illegalOp
  set (xRet 0b100000
    { s with
      privilegeMode := opShr (opAnd s.csrMstatus 0b100000000) 8
      csrMstatus := opAnd s.csrMstatus 0b11111111111111111111111011111101
      nextPc := s.csr cfg sepcCsr })
  return .endInstruction

def mret (cfg : PageConfig) : Op End := do
  let s ← get
  set (xRet 0b10000000
    { s with
      privilegeMode := opShr (opAnd s.csrMstatus 0b1100000000000) 11
      csrMstatus := opAnd s.csrMstatus 0b11111111111111111110011111110111
      nextPc := s.csr cfg mepcCsr })
  return .endInstruction

def sfenceVma : Op End := do
  let s ← get
  if s.privilegeMode = 0b01 ∧ opAnd s.csrMstatus 0b100000000000000000000 ≠ 0 then throw illegalOp
  set { s with icacheVar := .null }
  return .endInstruction

def privHandler (cfg : PageConfig) (imm : Int) : Op End := do
  let s ← get
  match priv imm s.privilegeMode with
  | .ILLEGAL_OP => throw illegalOp
  | .ECALL => throw { mcause := opOr 0b1000 s.privilegeMode, mtval := 0 }
  | .EBREAK => throw { mcause := 3, mtval := s.pc }
  | .WFI => return wfi s
  | .SRET => sret cfg
  | .SFENCE_VMA => sfenceVma
  | .MRET => mret cfg

end Mlogv32.Cpu
