import Mlogv32.Cpu.Csr

/-!
# Execution

`main` with its instruction fetch, the dispatch through LABELS, MLOGSYS, the end of an instruction,
traps and interrupts. `Machine.step` runs the worker from one of the labels in `Point` to the next.
A breakpoint only stops the hart until the controller lets it go on, so it is not modelled.
-/

namespace Mlogv32.Cpu
open Mlog

/-! ## MLOGSYS -/

/-- The loop of MLOGSYS: decode the words of ROM below `etext`. The slot of a word is the successor
of the last one in INCR, or is computed if that is `null`. The fuel bounds the number of iterations. -/
def mlogsysLoop (cfg : PageConfig) : Nat → Int → Tile → Value → Hart → Hart
  | 0, _, _, _, s => s
  | fuel + 1, address, ram, variable0, s =>
      let address := address + 4
      let next := readProc s.procs cfg.incr variable0 variable0
      if address < s.etext then
        let d := decode (loadRomWordUnchecked cfg address) s.imm
        let slot := if next.isNull then icacheSlot cfg address else (ram, next)
        mlogsysLoop cfg fuel address slot.1 slot.2
          { s with
            imm := d.imm
            procs := writeProc s.procs slot.1 slot.2 (.num d.payload) }
      else s

/-- The end of the decoded part of ROM, rounded up to a page boundary. -/
def mlogsysEtext (cfg : PageConfig) (rs1 : Int) : Int :=
  min (opAnd (rs1 + 4096) 0xfffff000) cfg.programRomIcacheSize

def mlogsys (cfg : PageConfig) (rs1 : Int) : Op End := do
  let s ← get
  if s.privilegeMode < 0b11 then throw illegalOp
  let etext := mlogsysEtext cfg rs1
  set (mlogsysLoop cfg (etext.toNat / 4 + 1) (-4) (0, 0) .null { s with etext := etext })
  return .endInstruction

/-! ## Fetch -/

/-- The physical address of `pc`. MPRV does not affect the fetch. -/
def fetchAddress (cfg : PageConfig) : Op Int := do
  let s ← get
  if s.privilegeMode < 0b11 then translateVirtualAddress cfg { mcause := 1, mtval := s.pc }
  else return s.pc

/-- `main__read_icache`: read the slot of the cursor, and advance the cursor. -/
def mainReadIcache (cfg : PageConfig) : Op (Option Fetched) := do
  let s ← get
  match s.icacheVar with
  | .var i =>
      let d := readIcache (s.procs s.icacheRam i).toNum
      set { s with imm := d.imm, icacheVar := s.procs cfg.incr i }
      return some d
  | _ => return none

/-- `main__slow_instruction_fetch`. -/
def mainSlowInstructionFetch (cfg : PageConfig) (address : Int) : Op (Option Fetched) := do
  let trap : Trap := { mcause := 1, mtval := (← get).pc }
  if address ≥ cfg.ramEnd then throw trap
  let value ← loadWord cfg address trap
  let d := slowFetch value (← get).imm
  modify fun s => { s with imm := d.imm }
  return some d

/-- `main__access_ram_icache`. -/
def mainAccessRamIcache (cfg : PageConfig) (address : Int) : Op (Option Fetched) := do
  let slot := accessRamRaw cfg address
  modify fun s => { s with icacheRam := slot.1, icacheVar := slot.2 }
  mainReadIcache cfg

/-- `main`, up to the read of the source registers. It returns nothing if the cursor is not a
variable, which happens if INCR was overwritten. -/
def fetch (cfg : PageConfig) : Op (Option Fetched) := do
  modify fun s => { s with nextPc := s.pc + 4 }
  if !(← get).icacheVar.isNull then mainReadIcache cfg
  else
    let address ← fetchAddress cfg
    if address < (← get).etext then mainAccessRamIcache cfg (cfg.ramSize + address)
    else if address < ramStart then mainSlowInstructionFetch cfg address
    else if address < cfg.icacheEnd then mainAccessRamIcache cfg (cfg.ramIcacheOffset + address)
    else mainSlowInstructionFetch cfg address

/-! ## Dispatch -/

/-- The handler at a label. -/
def handler (cfg : PageConfig) (d : Fetched) (rs1 rs2 : Int) : Label → Op End
  | .JAL => jal d.rdId d.imm
  | .JALR => jalr d.rdId rs1 d.imm
  | .LB => loadValue cfg d rs1 8 true
  | .LH => loadValue cfg d rs1 16 true
  | .LW => loadValue cfg d rs1 32 false
  | .LBU => loadValue cfg d rs1 8 false
  | .LHU => loadValue cfg d rs1 16 false
  | .SB => storeValue cfg d rs1 rs2 8
  | .SH => storeValue cfg d rs1 rs2 16
  | .SW => storeValue cfg d rs1 rs2 32
  | .LR_W => lrW cfg d rs1
  | .SC_W => scW cfg d rs1 rs2
  | .AMOADD_W | .AMOSWAP_W | .AMOXOR_W | .AMOOR_W | .AMOAND_W | .AMOMIN_W | .AMOMAX_W | .AMOMINU_W
  | .AMOMAXU_W => amo cfg d rs1 rs2
  | .FENCE => return fence d
  | .PRIV => privHandler cfg d.imm
  | .CSRRW => modifyCsr cfg d .rw rs1
  | .CSRRS => modifyCsr cfg d .rs rs1
  | .CSRRC => modifyCsr cfg d .rc rs1
  | .CSRRWI => modifyCsr cfg d .rw d.rs1Id
  | .CSRRSI => modifyCsr cfg d .rs d.rs1Id
  | .CSRRCI => modifyCsr cfg d .rc d.rs1Id
  | .MLOGSYS => mlogsys cfg rs1
  | .ILLEGAL_OP => throw illegalOp
  | label =>
      match branchTaken label rs1 rs2 with
      | some taken => branch taken d.imm
      | none => do
          match aluRd label (← get).pc rs1 rs2 d.imm with
          | some rd => return .endInstructionWithRd d.rdId rd
          | none => return .lost

/-- `main__no_breakpoint`: run the handler of the instruction. -/
def execute (cfg : PageConfig) (d : Fetched) (rs1 rs2 : Int) : Op End :=
  match labels (d.opId + 192) with
  | some label => handler cfg d rs1 rs2 label
  | none => return .lost

theorem execute_eq (cfg : PageConfig) {d : Fetched} {label : Label} (rs1 rs2 : Int)
    (h : labels (d.opId + 192) = some label) :
    execute cfg d rs1 rs2 = handler cfg d rs1 rs2 label := by
  rw [execute, h]

/-! ## Control -/

/-- The labels at which the model stops the worker. -/
inductive Point where
  | pollInterrupts
  | fireInterrupts
  | main
  /-- The dispatch, with the values of `rs1` and `rs2`. -/
  | execute (d : Fetched) (rs1 rs2 : Int)
  /-- The end of a handler. -/
  | ending (e : End)
  | trap (t : Trap)
  /-- The workers wait for the controller. -/
  | reset
  | lost
  deriving DecidableEq, Repr

/-- The state of the controller that the workers do not share. -/
structure Controller where
  uartRxInterruptPtrs : Int
  uartTxInterruptPtrs : Int

structure Machine where
  point : Point
  hart : Hart
  controller : Controller

/-! ## End of an instruction -/

/-- `end_instruction_trap`. -/
def endInstructionTrap (s : Hart) : Point × Hart :=
  let s := { s with pc := s.nextPc }
  if s.csrMip < 0b01000000000000000000000000000000 then (.main, s)
  else if s.csrMip < 0b10000000000000000000000000000000 then (.fireInterrupts, s)
  else (.pollInterrupts, s)

/-- The increment of instret. An overflow of minstreth is not handled. -/
def incrementInstret (cfg : PageConfig) (s : Hart) : Hart :=
  let minstret := s.csrMinstret + 1
  if minstret < 0x100000000 then { s with csrMinstret := minstret }
  else
    { s with csrMinstret := 0 }.writeCsr cfg (.var minstrethCsr) (s.csr cfg minstrethCsr + 1)

def endInstruction (cfg : PageConfig) (s : Hart) : Point × Hart :=
  endInstructionTrap (incrementInstret cfg s)

/-- `write rd REGISTERS rd_id`, which is skipped for x0. -/
def writeRd (s : Hart) (rdId rd : Int) : Hart :=
  if rdId = 0 then s
  else { s with registers := fun i => if i = rdId then rd else s.registers i }

def endInstructionWithRd (cfg : PageConfig) (rdId rd : Int) (s : Hart) : Point × Hart :=
  endInstruction cfg (writeRd s rdId rd)

def endInstructionWithRdAndFireInterrupts (cfg : PageConfig) (rdId rd : Int) (s : Hart) :
    Point × Hart :=
  endInstructionWithRd cfg rdId rd
    { s with csrMip := opOr s.csrMip 0b01000000000000000000000000000000 }

def endInstructionWithRdAndPollInterrupts (cfg : PageConfig) (rdId rd : Int) (s : Hart) :
    Point × Hart :=
  endInstructionWithRdAndFireInterrupts cfg rdId rd
    { s with csrMip := opOr s.csrMip 0b10000000000000000000000000000000 }

def finish (cfg : PageConfig) (s : Hart) : End → Point × Hart
  | .endInstruction => endInstruction cfg s
  | .endInstructionWithRd rdId rd => endInstructionWithRd cfg rdId rd s
  | .endInstructionWithRdAndFireInterrupts rdId rd =>
      endInstructionWithRdAndFireInterrupts cfg rdId rd s
  | .endInstructionWithRdAndPollInterrupts rdId rd =>
      endInstructionWithRdAndPollInterrupts cfg rdId rd s
  | .pauseOneTick => endInstruction cfg s
  | .reset => (.reset, s)
  | .lost => (.lost, s)

/-! ## Traps -/

/-- `trap__common`, with the fields of mstatus as they are before the shift. A trap to the default
trap vector halts. -/
def trapCommon (xpie xpp : Int) (s : Hart) : Point × Hart :=
  let s := { s with csrMstatus := opOr (opOr s.csrMstatus (opShl xpie 4)) xpp }
  let s := getEffectivePrivilegeModeAndInvalidateIcache s
  if s.nextPc = syscon then (.reset, s) else endInstructionTrap s

/-- The trap into S-mode. -/
def trapSupervisor (cfg : PageConfig) (t : Trap) (s : Hart) : Point × Hart :=
  let xpie := opAnd s.csrMstatus 0b10
  let xpp := opShl s.privilegeMode 8
  let s := { s with csrMstatus := opAnd s.csrMstatus 0b11111111111111111111111011011101 }
  let s := s.writeCsr cfg (.var scauseCsr) t.mcause
  let s := s.writeCsr cfg (.var stvalCsr) t.mtval
  let s := s.writeCsr cfg (.var sepcCsr) s.pc
  trapCommon xpie xpp { s with nextPc := s.csr cfg stvecCsr, privilegeMode := 0b01 }

/-- `trap__machine`. -/
def trapMachine (cfg : PageConfig) (t : Trap) (s : Hart) : Point × Hart :=
  let xpie := opAnd s.csrMstatus 0b1000
  let xpp := opShl s.privilegeMode 11
  let s := { s with csrMstatus := opAnd s.csrMstatus 0b11111111111111111110011101110111 }
  let s := s.writeCsr cfg (.var mcauseCsr) t.mcause
  let s := s.writeCsr cfg (.var mtvalCsr) t.mtval
  let s := s.writeCsr cfg (.var mepcCsr) s.pc
  trapCommon xpie xpp { s with nextPc := s.csr cfg mtvecCsr, privilegeMode := 0b11 }

/-- `trap__check_mxdeleg`. -/
def trapCheckMxdeleg (cfg : PageConfig) (mxdeleg : Int) (t : Trap) (s : Hart) : Point × Hart :=
  if s.privilegeMode > 0b01 then trapMachine cfg t s
  else if opAnd (opShr mxdeleg t.mcause) 0b1 = 0 then trapMachine cfg t s
  else trapSupervisor cfg t s

def trap (cfg : PageConfig) (t : Trap) (s : Hart) : Point × Hart :=
  trapCheckMxdeleg cfg (s.csr cfg medelegCsr) t s

/-! ## Interrupts -/

/-- `interrupt`: the cause is the number of the highest bit. -/
def interrupt (cfg : PageConfig) (mideleg bits : Int) (s : Hart) : Point × Hart :=
  trapCheckMxdeleg cfg mideleg { mcause := opOr (Nat.log2 bits.toNat) 0x80000000, mtval := 0 } s

/-- `fire_interrupts__ok`: the highest interrupt of the first group that is pending. -/
def fireInterruptsOk (cfg : PageConfig) (mideleg interrupts : Int) (s : Hart) : Point × Hart :=
  if opAnd interrupts 0b100010000000 ≠ 0 then
    interrupt cfg mideleg (opAnd interrupts 0b100010000000) s
  else if opAnd interrupts 0b001000000010 ≠ 0 then
    interrupt cfg mideleg (opAnd interrupts 0b001000000010) s
  else if opAnd interrupts 0b000000100000 ≠ 0 then
    interrupt cfg mideleg (opAnd interrupts 0b000000100000) s
  else (.main, s)

def fireInterrupts (cfg : PageConfig) (s : Hart) : Point × Hart :=
  let s := { s with csrMip := opAnd s.csrMip 0b10111111111111111111111111111111 }
  let interrupts := opAnd s.csrMip s.csrMie
  if interrupts = 0 then (.main, s)
  else
    let mideleg := s.csr cfg midelegCsr
    if s.privilegeMode < 0b01 then fireInterruptsOk cfg mideleg interrupts s
    else if opAnd (opShl 1 s.privilegeMode) s.csrMstatus = 0 then (.main, s)
    else if s.privilegeMode < 0b11 then fireInterruptsOk cfg mideleg interrupts s
    else fireInterruptsOk cfg mideleg (opAnd interrupts (opNot mideleg)) s

/-- A timer is at or past its compare value. -/
def timerPending (mtimeh mtime timecmph timecmp : Int) : Bool :=
  !(mtimeh < timecmph) && (mtime ≥ timecmp || mtimeh > timecmph)

def pollInterrupts (s : Hart) : Hart :=
  let mip := opAnd s.csrMip 0b01111111111111111111011101011111
  let uartInterrupts := opAnd (opShr s.uartFlags 4) s.uartFlags
  let mip := opOr mip (if uartInterrupts ≠ 0 then 0b100000000000 else 0)
  let mip := if timerPending s.csrMtimeh s.csrMtime s.csrMtimecmph s.csrMtimecmp then
    opOr mip 0b10000000 else mip
  let mip := if timerPending s.csrMtimeh s.csrMtime s.csrStimecmph s.csrStimecmp then
    opOr mip 0b100000 else mip
  { s with csrMip := mip }

/-! ## Steps -/

/-- The state after a computation that ends at a point or at `trap`. -/
def outcome {α : Type} (point : α → Hart → Point) : EStateM.Result Trap Hart α → Point × Hart
  | .ok a s => (point a s, s)
  | .error t s => (.trap t, s)

/-- The point after `main`. -/
def dispatch (d : Option Fetched) (s : Hart) : Point :=
  match d with
  | some d => .execute d (s.registers d.rs1Id) (s.registers d.rs2Id)
  | none => .lost

/-- The worker runs from a point to the next one. -/
def stepPoint (cfg : PageConfig) (p : Point) (s : Hart) : Point × Hart :=
  match p with
  | .pollInterrupts => (.fireInterrupts, pollInterrupts s)
  | .fireInterrupts => fireInterrupts cfg s
  | .main => outcome dispatch (fetch cfg s)
  | .execute d rs1 rs2 => outcome (fun e _ => .ending e) (execute cfg d rs1 rs2 s)
  | .ending e => finish cfg s e
  | .trap t => trap cfg t s
  | .reset => (.reset, s)
  | .lost => (.lost, s)

def Machine.step (cfg : PageConfig) (m : Machine) : Machine :=
  let r := stepPoint cfg m.point m.hart
  { m with point := r.1, hart := r.2 }

end Mlogv32.Cpu
