import Mlogv32.Cpu.Hart
import Mlogv32.Uart.World

/-!
# The processor's accesses to a UART

The worker reads all four pointers of the bank before each access, in `access_uart`, and other
processors run between any two of its instructions.
-/

namespace Mlogv32.Uart
open Cpu Mlog Logic

variable {ι β : Type} [DecidableEq β]

/-! ## Answers -/

inductive Question where
  | full
  | empty
  deriving DecidableEq, Repr

/-- What a party was told about a FIFO, and how many bytes were queued when it read the pointer that
another party moves. -/
structure Answer (β : Type) where
  fifo : Fifo β
  question : Question
  queued : Nat
  said : Bool

/-- The answer was right at that instruction. -/
def Answer.Exact (c : Nat) (a : Answer β) : Prop :=
  match a.question with
  | .full => a.said = true ↔ a.queued = c
  | .empty => a.said = true ↔ a.queued = 0

/-! ## The worker -/

namespace Worker

structure Access where
  rxRead : Reading
  rxWrite : Reading
  txRead : Reading
  txWrite : Reading
  nextTxWrite : Int

/-- `access_uart`, once it has found the bank. -/
def accessUart (c : Nat) (b : β) : Prog (World ι β) Access := do
  let rxRead ← read b uartRxRead
  let rxWrite ← read b uartRxWrite
  let txRead ← read b uartTxRead
  let txWrite ← read b uartTxWrite
  return {
    rxRead := rxRead
    rxWrite := rxWrite
    txRead := txRead
    txWrite := txWrite
    nextTxWrite := opMod (txWrite.val + 1) (c + 1) }

/-- The RX FIFO register. A load that is part of a store does not take a value. -/
def loadUartRx (c : Nat) (b : β) (mcause : Int) : Prog (World ι β) (Int × List (Answer β)) := do
  let u ← accessUart c b
  if u.rxRead.val = u.rxWrite.val then
    return (0, [{ fifo := ⟨b, .rx⟩, question := .empty, queued := u.rxWrite.queued, said := true }])
  if mcause = 7 then
    return (0, [{ fifo := ⟨b, .rx⟩, question := .empty, queued := u.rxWrite.queued, said := false }])
  let result ← read b u.rxRead.val
  let value := opAnd result.val 0xffffffff
  let rxRead := opMod (u.rxRead.val + 1) (c + 1)
  writeRptr ⟨b, .rx⟩ rxRead result value false
  return (value, [{ fifo := ⟨b, .rx⟩, question := .empty, queued := u.rxWrite.queued, said := false }])

/-- `load_mmio_word__uart_status`, from the interrupt bit on. -/
def statusWord (c : Nat) (interruptEnabled : Int) (u : Access) : Int :=
  let result := if u.txRead.val ≠ u.txWrite.val then interruptEnabled else opOr interruptEnabled 0b00100
  let result := if u.txRead.val ≠ u.nextTxWrite then result else opOr result 0b01000
  let result := if u.rxRead.val = u.rxWrite.val then result else opOr result 0b00001
  let nextRxWrite := opMod (u.rxWrite.val + 1) (c + 1)
  if u.rxRead.val ≠ nextRxWrite then result else opOr result 0b00010

/-- The Status register. The flags are shifted to the port. -/
def loadUartStatus (c : Nat) (b : β) (uartFlags : Int) : Prog (World ι β) (Int × List (Answer β)) := do
  let u ← accessUart c b
  let result := statusWord c (opAnd uartFlags 0b10000) u
  if opAnd result 0b01000 = 0 then
    .atomic always (fun w => w.markReady ⟨b, .tx⟩) fun _ => ()
  return (result,
    [{ fifo := ⟨b, .tx⟩, question := .empty, queued := u.txRead.queued,
       said := opAnd result 0b00100 ≠ 0 },
     { fifo := ⟨b, .tx⟩, question := .full, queued := u.txRead.queued,
       said := opAnd result 0b01000 ≠ 0 },
     { fifo := ⟨b, .rx⟩, question := .empty, queued := u.rxWrite.queued,
       said := opAnd result 0b00001 = 0 },
     { fifo := ⟨b, .rx⟩, question := .full, queued := u.rxWrite.queued,
       said := opAnd result 0b00010 ≠ 0 }])

/-- `store_mmio_word_unchecked__uart_tx`. An overflow of the FIFO is not checked. -/
def storeUartTx (c : Nat) (shared : Fifo β → Bool) (p : ι) (b : β) (value : Int) :
    Prog (World ι β) Unit := do
  let u ← accessUart c b
  writeData c shared p ⟨b, .tx⟩ u.txWrite.val value
  writeWptr ⟨b, .tx⟩ u.nextTxWrite value

/-- `write rx_write uart 254` of a control store. -/
def resetRx (c : Nat) (f : Fifo β) (rxWrite : Int) : Prog (World ι β) Unit :=
  .atomic always (fun w => w.resetRx c f rxWrite) fun _ => ()

/-- `write tx_read uart 511` of a control store. It does harm when a consumer has moved the read
pointer on, or is about to move it. -/
def resetTx (f : Fifo β) (txRead : Int) : Prog (World ι β) Unit :=
  .atomic (fun w => decide (w.rptr f = txRead) && !(w.log f).dequeuing)
    (fun w => w.resetTx f txRead) fun _ => ()

/-- `store_mmio_word_unchecked__uart_control`, after the interrupt flag. -/
def storeUartControl (c : Nat) (b : β) (value : Int) : Prog (World ι β) Unit := do
  let u ← accessUart c b
  if opAnd value 0b10 ≠ 0 then resetRx c ⟨b, .rx⟩ u.rxWrite.val
  if opAnd value 0b01 ≠ 0 then resetTx ⟨b, .tx⟩ u.txRead.val

end Worker

end Mlogv32.Uart
