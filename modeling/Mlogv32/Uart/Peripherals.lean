import Mlogv32.Uart.Worker

/-!
# The other parties of a UART

The programs `uart_link.mlog`, `kbconv.mlog`, `display.mlog` and `scrolling_display.mlog`, and the
class `UartAccess`. A loop runs for a given number of rounds, since a power switch can end it.
-/

namespace Mlogv32.Uart
open Cpu Mlog Logic

variable {ι β : Type} [DecidableEq β]

/-! ## Link -/

namespace UartLink

/-- One direction, from the TX FIFO of one bank to the RX FIFO of the other. -/
def transfer (c : Nat) (shared : Fifo β → Bool) (p : ι) (bank1 bank2 : β) :
    Prog (World ι β) (List (Answer β)) := do
  let txRptr ← read bank1 510
  let txWptr ← readWptr ⟨bank1, .tx⟩ txRptr.val
  if txRptr.val = txWptr.val then
    return [{ fifo := ⟨bank1, .tx⟩, question := .empty, queued := txWptr.queued, said := true }]
  let rxRptr ← read bank2 254
  let rxWptr ← read bank2 255
  let rxWptrNext := opMod (rxWptr.val + 1) (c + 1)
  if rxRptr.val = rxWptrNext then
    return [{ fifo := ⟨bank1, .tx⟩, question := .empty, queued := txWptr.queued, said := false },
      { fifo := ⟨bank2, .rx⟩, question := .full, queued := rxRptr.queued, said := true }]
  let index := txRptr.val + 256
  let byte ← read bank1 index
  let txRptrNext := opMod (txRptr.val + 1) (c + 1)
  writeRptr ⟨bank1, .tx⟩ txRptrNext byte byte.val false
  writeData c shared p ⟨bank2, .rx⟩ rxWptr.val byte.val
  writeWptr ⟨bank2, .rx⟩ rxWptrNext byte.val
  return [{ fifo := ⟨bank1, .tx⟩, question := .empty, queued := txWptr.queued, said := false },
    { fifo := ⟨bank2, .rx⟩, question := .full, queued := rxRptr.queued, said := false }]

/-- One round of the program. -/
def round (c : Nat) (shared : Fifo β → Bool) (p : ι) (bank1 bank2 : β) :
    Prog (World ι β) (List (Answer β)) := do
  let answers1 ← transfer c shared p bank1 bank2
  let answers2 ← transfer c shared p bank2 bank1
  return answers1 ++ answers2

end UartLink

/-! ## Keyboard converter -/

/-- One round of `wait_for_uart`, which starts over while the FIFO is full. -/
def waitForUart (c : Nat) (shared : Fifo β → Bool) (p : ι) (bank1 : β) (letter : Int) :
    Prog (World ι β) (List (Answer β)) := do
  let wptr ← read bank1 255
  let uartWptr := opAnd wptr.val 0xff
  let nextUartWptr := opMod (uartWptr + 1) (c + 1)
  let uartRptr ← read bank1 254
  if uartRptr.val = nextUartWptr then
    return [{ fifo := ⟨bank1, .rx⟩, question := .full, queued := uartRptr.queued, said := true }]
  writeData c shared p ⟨bank1, .rx⟩ uartWptr letter
  writeWptr ⟨bank1, .rx⟩ nextUartWptr letter
  return [{ fifo := ⟨bank1, .rx⟩, question := .full, queued := uartRptr.queued, said := false }]

/-! ## Displays -/

namespace Display

/-- `main` and `loop`, which keep the read pointer in a variable. -/
def main (c : Nat) (uart : β) : Nat → Int → Prog (World ι β) (List (Answer β))
  | 0, _ => return []
  | n + 1, rptr => do
      let wptr ← readWptr ⟨uart, .tx⟩ rptr
      if rptr = wptr.val then
        let answers ← main c uart n rptr
        return { fifo := ⟨uart, .tx⟩, question := .empty, queued := wptr.queued,
                 said := true } :: answers
      let index := rptr + 256
      let char ← read uart index
      let rptr := opMod (rptr + 1) (c + 1)
      writeRptr ⟨uart, .tx⟩ rptr char char.val false
      let answers ← main c uart n rptr
      return { fifo := ⟨uart, .tx⟩, question := .empty, queued := wptr.queued, said := false } :: answers

/-- `reset_loop`, and `n` rounds. -/
def reset (c : Nat) (uart : β) (n : Nat) : Prog (World ι β) (List (Answer β)) := do
  let rptr ← read uart 510
  main c uart n rptr.val

end Display

namespace ScrollingDisplay

/-- `main` and `uart_loop`. The inner loop takes all bytes up to a write pointer that it read
once, `rxWrite`; outside the inner loop that is `none`. -/
def main (c : Nat) (uart : β) : Nat → Int → Option Int → Prog (World ι β) (List (Answer β))
  | 0, _, _ => return []
  | n + 1, rxRead, none => do
      let rxWrite ← readWptr ⟨uart, .tx⟩ rxRead
      let empty := decide (rxRead = rxWrite.val)
      let answers ← main c uart n rxRead (if empty then none else some rxWrite.val)
      return { fifo := ⟨uart, .tx⟩, question := .empty, queued := rxWrite.queued,
               said := empty } :: answers
  | n + 1, rxRead, some rxWrite => do
      let index := rxRead + 256
      let char ← read uart index
      let rxRead := opMod (rxRead + 1) (c + 1)
      writeRptr ⟨uart, .tx⟩ rxRead char char.val (decide (rxRead ≠ rxWrite))
      main c uart n rxRead (if rxRead ≠ rxWrite then some rxWrite else none)

def reset (c : Nat) (uart : β) (n : Nat) : Prog (World ι β) (List (Answer β)) := do
  let rxRead ← read uart 510
  main c uart n rxRead.val none

end ScrollingDisplay

/-! ## The host

`UartAccess` names the FIFOs from its own side: it receives what the processor transmits. Its calls
run between two ticks, so that each is one action. -/

namespace UartAccess

/-- `Double.toInt` of an integral double. -/
def toInt (v : Int) : Int := max (-2 ^ 31) (min v (2 ^ 31 - 1))

/-- `Int.toUByte`. -/
def toUByte (v : Int) : UInt8 := UInt8.ofNat (v % 256).toNat

def wrap (capacity : Nat) (index : Int) : Int := index % (capacity + 1)

def read (capacity : Nat) (b : β) (w : World ι β) : Option UInt8 × World ι β :=
  let rxRptr := toInt (w.banks b 510)
  let rxWptr := toInt (w.banks b 511)
  if rxRptr = rxWptr then (none, w)
  else
    let byte := toUByte (toInt (w.banks b (256 + rxRptr)))
    (some byte, w.release ⟨b, .tx⟩ (wrap capacity (rxRptr + 1))
      (w.stamps b (256 + rxRptr)) byte.toNat false)

/-- `readAll`, with a bound on the number of reads. -/
def readAll (capacity : Nat) (b : β) : Nat → World ι β → List UInt8 × World ι β
  | 0, w => ([], w)
  | n + 1, w =>
      match read capacity b w with
      | (none, w) => ([], w)
      | (some byte, w) => (byte :: (readAll capacity b n w).1, (readAll capacity b n w).2)

def write (capacity : Nat) (p : ι) (b : β) (byte : UInt8) (w : World ι β) : Bool × World ι β :=
  let txWptr := opAnd (toInt (w.banks b 255)) 0xff
  let nextWptr := wrap capacity (txWptr + 1)
  if nextWptr = toInt (w.banks b 254) then (false, w)
  else (true, (w.putData p ⟨b, .rx⟩ txWptr byte.toNat).publish ⟨b, .rx⟩ nextWptr byte.toNat)

def readProg (c : Nat) (b : β) : Prog (World ι β) (List (Answer β)) :=
  .atomic always (fun w => (read c b w).2) fun w =>
    [{ fifo := ⟨b, .tx⟩, question := .empty, queued := (w.log ⟨b, .tx⟩).queued,
       said := (read c b w).1.isNone }]

def readAllProg (c : Nat) (b : β) : Prog (World ι β) (List (Answer β)) :=
  .atomic always (fun w => (readAll c b (c + 1) w).2) fun w =>
    [{ fifo := ⟨b, .tx⟩, question := .empty, queued := (w.log ⟨b, .tx⟩).queued,
       said := (readAll c b (c + 1) w).1.isEmpty }]

/-- A write that is not refused does harm when another producer is about to move the pointer. -/
def writeProg (c : Nat) (shared : Fifo β → Bool) (p : ι) (b : β) (byte : UInt8) :
    Prog (World ι β) (List (Answer β)) :=
  .atomic
    (fun w => !shared ⟨b, .rx⟩ || !(write c p b byte w).1 ||
      (w.log ⟨b, .rx⟩).writing.isNone)
    (fun w => (write c p b byte w).2) fun w =>
    [{ fifo := ⟨b, .rx⟩, question := .full, queued := (w.log ⟨b, .rx⟩).queued,
       said := !(write c p b byte w).1 }]

end UartAccess

end Mlogv32.Uart
