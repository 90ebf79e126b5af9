import Mlogv32.Cpu.Decode

/-!
# Hart state and physical memory

The state of the hart at an instruction boundary: the variables that the workers hand over, and the
buildings they are linked to. Local variables, the working variables that every instruction sets
before it reads them and the return addresses are not part of it.

A helper of the worker that can jump to `trap` is a computation in `Op`. Its error is the exception
with the state at the jump.
-/

namespace Mlogv32.Cpu
open Mlog

/-- Memory banks by their number, counted from the first UART link. -/
abbrev Uarts := Int → Int → Int

/-- The variables of the RAM-like processors, by tile and variable number. -/
abbrev Procs := Tile → Nat → Value

structure Hart where
  etext : Int
  csrMcycle : Int
  csrMie : Int
  csrMinstret : Int
  csrMip : Int
  csrMstatus : Int
  csrMtime : Int
  csrMtimecmp : Int
  csrMtimecmph : Int
  csrMtimeh : Int
  csrStimecmp : Int
  csrStimecmph : Int
  effectivePrivilegeMode : Int
  icacheRam : Tile
  icacheVar : Value
  imm : Int
  nextPc : Int
  pc : Int
  privilegeMode : Int
  uartFlags : Int
  /-- REGISTERS. -/
  registers : Int → Int
  /-- The memory processors, CSRS, INCR and CSR_LABELS. -/
  procs : Procs
  uarts : Uarts
  /-- `reservation_set` of the controller. -/
  reservationSet : Option Int

/-- The inputs of `trap`. -/
structure Trap where
  mcause : Int
  mtval : Int
  deriving DecidableEq, Repr

abbrev Op := EStateM Trap Hart

/-! ## Variables of processors -/

/-- `write x proc position`. A position that is not a name writes nothing. -/
def writeProc (procs : Procs) (t : Tile) (position x : Value) : Procs :=
  match position with
  | .var i => fun t' j => if t' = t ∧ j = i then x else procs t' j
  | _ => procs

/-- `read old proc position`. A position that is not a name leaves the output as it is. -/
def readProc (procs : Procs) (t : Tile) (position old : Value) : Value :=
  match position with
  | .var i => procs t i
  | _ => old

/-- A CSR kept in CSRS, as the number an operation sees. -/
def Hart.csr (cfg : PageConfig) (s : Hart) (n : Nat) : Int := (s.procs cfg.csrs n).toNum

/-! ## RAM -/

/-- The name that lookup processor `lookup` holds for block number `block`. -/
def lookupProc (lookup block : Int) : Value :=
  let i := lookup * lookupProcSize + block
  if 0 ≤ lookup ∧ 0 ≤ block ∧ i < ramProcVars then .var i.toNat else .null

def lookupVariable (address : Int) : Value :=
  lookupProc (opIdiv address lookupProcSize) (opMod address lookupProcSize)

/-- `access_ram_raw`: the processor and the variable of a byte offset. -/
def accessRamRaw (cfg : PageConfig) (address : Int) : Tile × Value :=
  let address := opIdiv address 4
  let ramIndex := opIdiv address ramProcVars + cfg.ramStartProc
  (cfg.tile ramIndex, lookupVariable (opMod address ramProcVars))

def accessRam (cfg : PageConfig) (address : Int) : Tile × Value :=
  accessRamRaw cfg (address - ramStart)

/-- The icache slot that `end_decode` writes for an address. -/
def icacheSlot (cfg : PageConfig) (address : Int) : Tile × Value :=
  accessRamRaw cfg ((if address < ramStart then (cfg.ramSize : Int) else cfg.ramIcacheOffset) + address)

def swapEndianness (value : Int) : Int :=
  let result := opAnd (opShr value 24) 0xff
  let tmp := opAnd (opShl value 8) 0xff0000
  let result := opOr result tmp
  let tmp := opAnd (opShr value 8) 0xff00
  let result := opOr result tmp
  let tmp := opAnd (opShl value 24) 0xff000000
  opOr result tmp

def loadRamWordUnchecked (cfg : PageConfig) (procs : Procs) (address : Int) : Int :=
  let slot := accessRam cfg address
  swapEndianness (readProc procs slot.1 slot.2 .null).toNum

/-! ## ROM -/

/-- A character of the string of a ROM processor. Reading out of range gives `null`. -/
def romChar (cfg : PageConfig) (t : Tile) (i : Int) : Int :=
  match cfg.rom t i with
  | some b => romByteOffset + (b.val : Int)
  | none => 0

def loadRomWordUnchecked (cfg : PageConfig) (address : Int) : Int :=
  let address := opAnd address 0xfffffffc
  let romIndex := opIdiv address romProcBytes
  let strIndex := opMod address romProcBytes
  let rom := cfg.tile romIndex
  let byte0 := romChar cfg rom strIndex
  let byte1 := romChar cfg rom (strIndex + 1)
  let byte2 := romChar cfg rom (strIndex + 2)
  let byte3 := romChar cfg rom (strIndex + 3)
  let result := byte0 + opShl byte1 8 + opShl byte2 16 + opShl byte3 24
  max (result - romByteOffset * (1 + 2 ^ 8 + 2 ^ 16 + 2 ^ 24)) 0

/-! ## MMIO -/

/-- The outputs of `access_uart`. -/
structure UartAccess where
  offset : Int
  uartShift : Int
  rxRead : Int
  rxWrite : Int
  txRead : Int
  txWrite : Int
  nextTxWrite : Int

def accessUart (cfg : PageConfig) (s : Hart) (offset : Int) : UartAccess :=
  let offset := offset - uartRxOffset
  let uartShift := opIdiv offset uartMmioSize
  let uart := s.uarts uartShift
  { offset := opMod offset uartMmioSize + uartRxOffset
    uartShift := uartShift
    rxRead := uart uartRxRead
    rxWrite := uart uartRxWrite
    txRead := uart uartTxRead
    txWrite := uart uartTxWrite
    nextTxWrite := opMod (uart uartTxWrite + 1) cfg.uartFifoModulo }

/-- `write value bank i`. -/
def writeUart (uarts : Uarts) (uartShift i value : Int) : Uarts :=
  fun u j => if u = uartShift ∧ j = i then value else uarts u j

/-- `load_mmio_word__uart_status`. Reading the register clears the interrupt of the port. -/
def loadUartStatus (cfg : PageConfig) (u : UartAccess) : Op Int := do
  let s ← get
  let result := opAnd (opShr s.uartFlags u.uartShift) 0b10000
  let result := if u.txRead ≠ u.txWrite then result else opOr result 0b00100
  let result := if u.txRead ≠ u.nextTxWrite then result else opOr result 0b01000
  let result := if u.rxRead = u.rxWrite then result else opOr result 0b00001
  let nextRxWrite := opMod (u.rxWrite + 1) cfg.uartFifoModulo
  let result := if u.rxRead ≠ nextRxWrite then result else opOr result 0b00010
  let mask := opAnd s.uartFlags (opShl 1 u.uartShift)
  if mask ≠ 0 then
    set { s with
      uartFlags := opAnd s.uartFlags (opNot mask)
      csrMip := opOr s.csrMip 0b10000000000000000000000000000000 }
  return result

/-- The UART RX FIFO register. A load that is part of a store does not take a value. -/
def loadUartRx (cfg : PageConfig) (u : UartAccess) (mcause : Int) : Op Int := do
  let s ← get
  if u.rxRead = u.rxWrite then return 0
  if mcause = 7 then return 0
  let result := opAnd (s.uarts u.uartShift u.rxRead) 0xffffffff
  let rxRead := opMod (u.rxRead + 1) cfg.uartFifoModulo
  set { s with uarts := writeUart s.uarts u.uartShift uartRxRead rxRead }
  return result

def loadMmioWord (cfg : PageConfig) (address : Int) (trap : Trap) : Op Int := do
  let s ← get
  if address = syscon then return 0
  let offset := opAnd (address - mmioStart) 0x3fffffffc
  if offset ≥ 0x50 then throw trap
  if offset ≥ uartRxOffset then
    let u := accessUart cfg s offset
    if u.offset = uartStatusOffset then loadUartStatus cfg u
    else if u.offset ≤ uartRxOffset then loadUartRx cfg u trap.mcause
    else return 0
  else
    -- the machine timers
    if s.effectivePrivilegeMode < 0b11 then throw trap
    return if offset = 0 then s.csrMtime
      else if offset = 4 then s.csrMtimeh
      else if offset = 8 then s.csrMtimecmp
      else s.csrMtimecmph

/-! ## Physical loads -/

def loadRamOrMmioWord (cfg : PageConfig) (address : Int) (trap : Trap) : Op Int := do
  if address ≥ mmioStart then loadMmioWord cfg address trap
  else if address < ramStart then throw trap
  else if address ≥ cfg.ramEnd then throw trap
  else return loadRamWordUnchecked cfg (← get).procs address

/-- `load_word`: the word that contains a physical address. -/
def loadWord (cfg : PageConfig) (address : Int) (trap : Trap) : Op Int :=
  if address < cfg.romSize then return loadRomWordUnchecked cfg address
  else loadRamOrMmioWord cfg address trap

end Mlogv32.Cpu
