import Mlogv32.Cpu.Machine

/-!
# The controller and the environment

The controller resets the hart and updates the timer and the UART flags once per tick. A worker that
takes over the hart increments mcycle. `Machine.apply` is the effect of one event, and `Reachable`
the states that a sequence of events leads to.
-/

namespace Mlogv32.Cpu
open Mlog

/-! ## UART flags -/

/-- The edge detector of one FIFO. `quiet` says that the FIFO has nothing to report. It returns the
new flags and pointers. -/
def updateUartPtr (uartShift : Int) (quiet : Bool) (ptr uartFlags ptrs : Int) : Int × Int :=
  let ptrShift := uartShift * 8
  let clearPtrMask := opNot (opShl 0xff ptrShift)
  if quiet then (uartFlags, opOr (opAnd ptrs clearPtrMask) (opShl 0xff ptrShift))
  else if opAnd (opShr ptrs ptrShift) 0xff = ptr then (uartFlags, ptrs)
  else
    (opOr uartFlags (opShl 1 uartShift), opOr (opAnd ptrs clearPtrMask) (opShl ptr ptrShift))

/-- One iteration of `update_uart_flags__loop`: RX became non-empty, then TX became empty. -/
def updateUartFlagsStep (uarts : Uarts) (c : Int × Controller) (uartShift : Int) : Int × Controller :=
  let uart := uarts uartShift
  let rx := updateUartPtr uartShift (uart uartRxRead = uart uartRxWrite) (uart uartRxRead)
    c.1 c.2.uartRxInterruptPtrs
  let tx := updateUartPtr uartShift (uart uartTxRead ≠ uart uartTxWrite) (uart uartTxWrite)
    rx.1 c.2.uartTxInterruptPtrs
  (tx.1, { uartRxInterruptPtrs := rx.2, uartTxInterruptPtrs := tx.2 })

def updateUartFlags (uarts : Uarts) (uartFlags : Int) (c : Controller) : Int × Controller :=
  [0, 1, 2, 3].foldl (updateUartFlagsStep uarts) (uartFlags, c)

/-! ## Reset -/

/-- The writes of `reset` to CSRS, in order. -/
def resetCsrs : List (Nat × Value) :=
  [(mcauseCsr, .null), (scauseCsr, .null), (minstrethCsr, .num 0), (mcyclehCsr, .num 0),
   (medelegCsr, .num 0), (midelegCsr, .num 0), (mtvecCsr, .num syscon), (stvecCsr, .num syscon),
   (satpCsr, .num 0), (misaCsr, .num 0b01000000100101000001000100000001),
   (0xf14, .num 0), (0xf11, .num 0), (0xf12, .num 0), (0xf13, .num 0),
   (mepcCsr, .num 0), (mscratchCsr, .num 0), (mtvalCsr, .num 0),
   (sepcCsr, .num 0), (sscratchCsr, .num 0), (stvalCsr, .num 0)]

/-- `write 0 REGISTERS i` for the 32 registers. -/
def clearRegisters (registers : Int → Int) : Int → Int :=
  fun i => if 0 ≤ i ∧ i < 32 then 0 else registers i

/-- The hart after `end_slow_init`. Memory and the icache keep their contents. -/
def resetHart (cfg : PageConfig) (s : Hart) (uartFlags : Int) : Hart :=
  { s with
    etext := 0
    uartFlags := uartFlags
    privilegeMode := 0b11
    effectivePrivilegeMode := 0b11
    csrMstatus := 0
    pc := 0
    icacheVar := .null
    reservationSet := none
    registers := clearRegisters s.registers
    csrMtime := 0
    csrMtimeh := 0
    csrMtimecmp := 0
    csrMtimecmph := 0
    csrStimecmp := 0
    csrStimecmph := 0
    csrMinstret := 0
    csrMcycle := 0
    csrMip := 0
    csrMie := 0
    procs := resetCsrs.foldl (fun p w => writeProc p cfg.csrs (.var w.1) w.2) s.procs }

/-- A reset by the controller. The first worker starts at `poll_interrupts`. -/
def Machine.reset (cfg : PageConfig) (m : Machine) : Machine :=
  let u := updateUartFlags m.hart.uarts 0
    { uartRxInterruptPtrs := 0xffffffff, uartTxInterruptPtrs := 0xffffffff }
  { point := .pollInterrupts, hart := resetHart cfg m.hart u.1, controller := u.2 }

/-- The processors after the slow initialisation, with RAM and the icache empty. -/
def initProcs (cfg : PageConfig) : Procs := fun t i =>
  if t = cfg.incr then initIncr i
  else if t = cfg.csrLabels then initCsrLabels i
  else .null

/-- The machine before the first reset. -/
def Machine.powerOn (cfg : PageConfig) (uarts : Uarts) : Machine :=
  { point := .reset
    hart :=
      { etext := 0, csrMcycle := 0, csrMie := 0, csrMinstret := 0, csrMip := 0, csrMstatus := 0
        csrMtime := 0, csrMtimecmp := 0, csrMtimecmph := 0, csrMtimeh := 0, csrStimecmp := 0
        csrStimecmph := 0, effectivePrivilegeMode := 0, icacheRam := (0, 0), icacheVar := .null
        imm := 0, nextPc := 0, pc := 0, privilegeMode := 0, uartFlags := 0
        registers := fun _ => 0, procs := initProcs cfg, uarts := uarts, reservationSet := none }
    controller := { uartRxInterruptPtrs := 0, uartTxInterruptPtrs := 0 } }

/-! ## Ticks and hand-offs -/

/-- The increment of mcycle by a worker that takes over. An overflow of mcycleh is not handled. -/
def incrementMcycle (cfg : PageConfig) (s : Hart) : Hart :=
  let mcycle := s.csrMcycle + 1
  if mcycle < 0x100000000 then { s with csrMcycle := mcycle }
  else { s with csrMcycle := 0 }.writeCsr cfg (.var mcyclehCsr) (s.csr cfg mcyclehCsr + 1)

/-- The update of mtime by `delta` units. An overflow of mtimeh is not handled. -/
def updateMtime (s : Hart) (delta : NNRat) : Hart :=
  let mtime := ⌊number (s.csrMtime + delta)⌋
  { s with
    csrMtime := opMod mtime 0x100000000
    csrMtimeh := toDouble (s.csrMtimeh + opShr (saturate mtime) 32) }

/-- The controller's `next_tick` in the state running. -/
def Machine.tick (m : Machine) (delta : NNRat) : Machine :=
  let u := updateUartFlags m.hart.uarts m.hart.uartFlags m.controller
  let s := updateMtime { m.hart with uartFlags := u.1 } delta
  { m with
    hart := { s with csrMip := opOr s.csrMip 0b11000000000000000000000000000000 }
    controller := u.2 }

/-! ## Runs -/

/-- What can happen between two labels of the worker. -/
inductive Event where
  | step
  | handOff
  | tick (delta : NNRat)
  /-- The devices on the UARTs change their banks. -/
  | device (uarts : Uarts)
  | reset

/-- The worker is running, or waits for the controller. -/
def Point.isRunning : Point → Bool
  | .reset => false
  | .lost => false
  | _ => true

def Machine.apply (cfg : PageConfig) (m : Machine) : Event → Machine
  | .step => m.step cfg
  | .handOff =>
      if m.point.isRunning then { m with hart := incrementMcycle cfg m.hart } else m
  | .tick delta => if m.point.isRunning then m.tick delta else m
  | .device uarts => { m with hart := { m.hart with uarts := uarts } }
  | .reset => m.reset cfg

/-- The machine after a list of events. -/
def Machine.run (cfg : PageConfig) (m : Machine) (es : List Event) : Machine :=
  es.foldl (Machine.apply cfg) m

/-- The machine after the first reset. -/
def Machine.start (cfg : PageConfig) (uarts : Uarts) : Machine := (powerOn cfg uarts).reset cfg

/-- The points between two instructions. -/
def Point.isBoundary : Point → Bool
  | .pollInterrupts | .fireInterrupts | .main => true
  | _ => false

/-! ## A small build -/

/-- The build `rom=1,ram=1`: four rows of 32 processors below the processors of the CPU. Positions
are relative to the first memory processor. -/
def smallBuild (rom : Tile → Int → Option (Fin 256)) : Config where
  memoryX := 0
  memoryY := 0
  memoryWidth := 32
  programRomSize := 0x80000
  dataRomSize := 0
  ramSize := 0x80000
  icacheSize := 0x100000
  uartFifoCapacity := 253
  csrs := (9, 22)
  incr := (9, 21)
  csrLabels := (4, 21)
  rom := rom
  memoryWidth_pos := by decide
  programRomSize_aligned := by decide
  dataRomSize_aligned := by decide
  ramSize_aligned := by decide
  icacheSize_aligned := by decide
  romSize_le := by decide
  ramSize_le := by decide
  csrs_ne i hlo hhi h := by
    have h' := congrArg Prod.snd h
    rw [procTile, opIdiv_eq _ (by decide)] at h'
    dsimp only at h'
    omega
  incr_ne i hlo hhi h := by
    have h' := congrArg Prod.snd h
    rw [procTile, opIdiv_eq _ (by decide)] at h'
    dsimp only at h'
    omega
  csrLabels_ne i hlo hhi h := by
    have h' := congrArg Prod.snd h
    rw [procTile, opIdiv_eq _ (by decide)] at h'
    dsimp only at h'
    omega
  csrs_ne_incr := by decide
  csrs_ne_csrLabels := by decide
  incr_ne_csrLabels := by decide
  romSize_aligned := by decide

/-- The hart of the small build after the first reset, with an empty ROM. -/
def bareHart : Hart := (Machine.start (smallBuild fun _ _ => none) fun _ _ => 0).hart

/-- A program of words in the first ROM processor. -/
def romOfWords (words : List Nat) (t : Tile) (i : Int) : Option (Fin 256) :=
  if t = (0, 0) ∧ 0 ≤ i then
    words[i.toNat / 4]?.map fun w => Fin.ofNat 256 (w / 256 ^ (i.toNat % 4))
  else none

end Mlogv32.Cpu
