import Mlogv32.Cpu.Handlers

/-!
# CSR instructions

`modify_csr` with its read and write handlers, which it finds in CSR_LABELS.
-/

namespace Mlogv32.Cpu
open Mlog

def sstatusCsr : Nat := 0x100
def stvecCsr : Nat := 0x105
def scounterenCsr : Nat := 0x106
def scauseCsr : Nat := 0x142
def stvalCsr : Nat := 0x143
def stimecmpCsr : Nat := 0x14d
def misaCsr : Nat := 0x301
def medelegCsr : Nat := 0x302
def midelegCsr : Nat := 0x303
def mtvecCsr : Nat := 0x305
def mcounterenCsr : Nat := 0x306
def mscratchCsr : Nat := 0x340
def sscratchCsr : Nat := 0x140
def mcauseCsr : Nat := 0x342
def mtvalCsr : Nat := 0x343
def mcyclehCsr : Nat := 0xb80
def minstrethCsr : Nat := 0xb82
def timeCsr : Nat := 0xc01

/-- `write x CSRS variable`. -/
def Hart.writeCsr (cfg : PageConfig) (s : Hart) (position : Value) (x : Int) : Hart :=
  { s with procs := writeProc s.procs cfg.csrs position (.num x) }

/-! ## Read handlers -/

/-- `check_xcounteren`. `address` is the number of the counter. -/
def checkXcounteren (cfg : PageConfig) (s : Hart) (address : Int) : Bool :=
  if s.privilegeMode = 0b11 then true
  else
    let xcounteren := s.csr cfg mcounterenCsr
    let xcounteren := if s.privilegeMode = 0b01 then xcounteren
      else opAnd xcounteren (s.csr cfg scounterenCsr)
    opAnd (opShr xcounteren (opAnd address 31)) 0b1 ≠ 0

/-- A read of a counter, which traps if the mode may not access it. -/
def readCounter (cfg : PageConfig) (address rd : Int) : Op Int := do
  if checkXcounteren cfg (← get) address then return rd else throw illegalOp

/-- The value of `rd` that a read handler returns, for the CSR with number `imm` and name `csrVar`. -/
def csrRead (cfg : PageConfig) (imm : Int) (csrVar : Value) : CsrRead → Op Int
  | .ILLEGAL_OP => throw illegalOp
  | .csrs => do return (readProc (← get).procs cfg.csrs csrVar (.num 0)).toNum
  | .zero => return 0
  | .mstatus => do
      let mask := if csrVar = .var sstatusCsr then 0b00000000000011000000000100100010 else 0xffffffff
      return opAnd (← get).csrMstatus mask
  | .sip => do
      let s ← get
      return opAnd s.csrMip (s.csr cfg midelegCsr)
  | .mip => do return opAnd (← get).csrMip 0b00111111111111111111111111111111
  | .sie => do
      let s ← get
      return opAnd s.csrMie (s.csr cfg midelegCsr)
  | .mie => do return (← get).csrMie
  | .satp => do
      let s ← get
      if s.privilegeMode = 0b01 ∧ opAnd s.csrMstatus 0b100000000000000000000 ≠ 0 then throw illegalOp
      return (readProc s.procs cfg.csrs csrVar (.num 0)).toNum
  | .stimecmp => do
      let s ← get
      -- stimecmp is controlled by the TM bit
      readCounter cfg 1 (if csrVar = .var stimecmpCsr then s.csrStimecmp else s.csrStimecmph)
  | .mcycle => do readCounter cfg imm (← get).csrMcycle
  | .cycleh => do readCounter cfg imm ((← get).csr cfg mcyclehCsr)
  | .minstret => do readCounter cfg imm (← get).csrMinstret
  | .minstreth => do readCounter cfg imm ((← get).csr cfg minstrethCsr)
  | .time => do
      let s ← get
      readCounter cfg imm (if csrVar = .var timeCsr then s.csrMtime else s.csrMtimeh)
  | .hpmcounter => readCounter cfg imm 0

/-! ## Write handlers -/

/-- `csr_write_sstatus`, which `csr_write_mstatus` continues into. -/
def writeSstatus (s : Hart) (result : Int) : Hart :=
  let mstatus := opAnd s.csrMstatus 0b11111111111100111111111011011101
  getEffectivePrivilegeMode { s with csrMstatus := opOr mstatus result }

/-- The value of `result` after the check for the reserved value of MPP. -/
def legalMpp (result : Int) : Int :=
  if opAnd result 0b1100000000000 ≠ 0b1000000000000 then result
  else opAnd result 0b11111111111111111110011111111111

/-- The write handlers. The read handler of sip and sie has read mideleg, so without it the worker
would use a value of another instruction. -/
def csrWrite (cfg : PageConfig) (read : CsrRead) (csrVar : Value) (result rdId rd : Int) :
    CsrWrite → Op End
  | .ILLEGAL_OP => throw illegalOp
  | .satp => do
      modify fun s => { s with icacheVar := .null }
      modify fun s => s.writeCsr cfg csrVar result
      return .endInstructionWithRd rdId rd
  | .csrs => do
      modify fun s => s.writeCsr cfg csrVar result
      return .endInstructionWithRd rdId rd
  | .readonly => return .endInstructionWithRd rdId rd
  | .mstatus => do
      modify fun s => writeSstatus { s with csrMstatus := 0 } (legalMpp result)
      return .endInstructionWithRdAndFireInterrupts rdId rd
  | .sstatus => do
      modify fun s => writeSstatus s result
      return .endInstructionWithRdAndFireInterrupts rdId rd
  | .sip => do
      if read ≠ .sip then return .lost
      modify fun s =>
        let mideleg := s.csr cfg midelegCsr
        { s with csrMip := opOr (opAnd s.csrMip (opNot mideleg)) (opAnd result mideleg) }
      return .endInstructionWithRdAndFireInterrupts rdId rd
  | .mip => do
      modify fun s =>
        { s with csrMip := opOr (opAnd s.csrMip 0b11111111111111111111110111111101) result }
      return .endInstructionWithRdAndFireInterrupts rdId rd
  | .sie => do
      if read ≠ .sie then return .lost
      modify fun s =>
        let mideleg := s.csr cfg midelegCsr
        { s with csrMie := opOr (opAnd s.csrMie (opNot mideleg)) (opAnd result mideleg) }
      return .endInstructionWithRdAndFireInterrupts rdId rd
  | .mie => do
      modify fun s => { s with csrMie := opAnd result 0b00000000000000000000101010100010 }
      return .endInstructionWithRdAndFireInterrupts rdId rd
  | .stimecmp => do
      modify fun s => { s with csrStimecmp := result }
      return .endInstructionWithRdAndPollInterrupts rdId rd
  | .stimecmph => do
      modify fun s => { s with csrStimecmph := result }
      return .endInstructionWithRdAndPollInterrupts rdId rd
  | .mcycle => do
      modify fun s => { s with csrMcycle := result }
      return .endInstructionWithRd rdId rd
  | .minstret => do
      -- the end of the instruction adds the 1 again
      modify fun s => { s with csrMinstret := result - 1 }
      return .endInstructionWithRd rdId rd
  | .minstreth => do
      modify fun s => { s with csrMinstret := s.csrMinstret - 1 }
      modify fun s => s.writeCsr cfg csrVar result
      return .endInstructionWithRd rdId rd

/-! ## The instructions -/

/-- `modify_csr__rw`, `modify_csr__rs` and `modify_csr__rc`. -/
inductive ModifyCsrOp where
  | rw | rs | rc
  deriving DecidableEq, Repr

/-- The new value, before the mask. -/
def ModifyCsrOp.result (op : ModifyCsrOp) (rs1 rd : Int) : Int :=
  match op with
  | .rw => rs1
  | .rs => opOr rs1 rd
  | .rc => opAnd (opNot rs1) rd

def modifyCsr (cfg : PageConfig) (d : Fetched) (op : ModifyCsrOp) (rs1 : Int) : Op End := do
  let s ← get
  if s.privilegeMode < opAnd (opShr d.imm 8) 0b11 then throw illegalOp
  let csrVar := lookupVariable d.imm
  let csrLabels := (readProc s.procs cfg.csrLabels csrVar .null).toNum
  match CsrRead.ofAddress (opMod csrLabels 1000) with
  | none => return .lost
  | some read =>
      let rd ← csrRead cfg d.imm csrVar read
      if op ≠ .rw ∧ d.rs1Id = 0 then return .endInstructionWithRd d.rdId rd
      let result := opAnd (op.result rs1 rd) (opIdiv csrLabels 1000000)
      match CsrWrite.ofAddress (opMod (opIdiv csrLabels 1000) 1000) with
      | none => return .lost
      | some write => csrWrite cfg read csrVar result d.rdId rd write

end Mlogv32.Cpu
