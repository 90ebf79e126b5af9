import Mlogv32.Cpu.Config
import Mlogv32.Logic.Threads

/-!
# UART banks

A UART is a memory bank with two ring buffers. RX is what the processor reads and TX what it writes.
Beside the banks, the world keeps a log of each FIFO. No program reads the logs. They say which
bytes were accepted and delivered, and what the parties are in the middle of.
-/

namespace Mlogv32.Uart
open Cpu Mlog Logic

inductive Dir where
  | rx
  | tx
  deriving DecidableEq, Repr

structure Fifo (β : Type) where
  bank : β
  dir : Dir
  deriving DecidableEq

namespace Fifo

variable {β : Type}

def start (f : Fifo β) : Int :=
  match f.dir with
  | .rx => 0
  | .tx => uartTxStart

def rptrCell (f : Fifo β) : Int :=
  match f.dir with
  | .rx => uartRxRead
  | .tx => uartTxRead

def wptrCell (f : Fifo β) : Int :=
  match f.dir with
  | .rx => uartRxWrite
  | .tx => uartTxWrite

end Fifo

/-! ## Logs -/

structure Log (ι : Type) where
  accepted : List Int
  /-- The number of bytes that are gone, delivered or dropped by a reset. -/
  removed : Nat
  /-- The deliveries, each with the number of the byte among the accepted ones. -/
  delivered : List (Nat × Int)
  /-- For each reset, the numbers of bytes removed and of bytes delivered so far. -/
  resets : List (Nat × Nat)
  /-- The producer between its write of a data cell and its write of the pointer. -/
  writing : Option ι
  /-- A consumer has found the FIFO not empty and has not yet moved the read pointer. -/
  dequeuing : Bool
  /-- The Status register has shown the FIFO not full since the last store. -/
  ready : Bool

namespace Log

variable {ι : Type}

def start : Log ι :=
  { accepted := [], removed := 0, delivered := [], resets := [], writing := none, dequeuing := false,
    ready := false }

/-- The bytes in the FIFO, each with its number. -/
def queue (l : Log ι) : List (Int × Nat) := l.accepted.zipIdx.drop l.removed

def queued (l : Log ι) : Nat := l.accepted.length - l.removed

end Log

structure World (ι β : Type) where
  banks : β → Int → Int
  /-- The number of the byte that was last written to a data cell. -/
  stamps : β → Int → Nat
  log : Fifo β → Log ι
  /-- The data cells that were written. -/
  dataWrites : List (β × Int)

/-- A change of one cell. -/
def setCell {β V : Type} [DecidableEq β] (banks : β → Int → V) (b : β) (i : Int) (v : V) : β → Int → V :=
  fun b' j => if b' = b ∧ j = i then v else banks b' j

namespace World

variable {ι β : Type} [DecidableEq β]

def rptr (w : World ι β) (f : Fifo β) : Int := w.banks f.bank f.rptrCell

def wptr (w : World ι β) (f : Fifo β) : Int := w.banks f.bank f.wptrCell

/-- The banks at the start, with empty logs. -/
def start (banks : β → Int → Int) : World ι β :=
  { banks := banks, stamps := fun _ _ => 0, log := fun _ => .start, dataWrites := [] }

def setLog (w : World ι β) (f : Fifo β) (l : Log ι) : Fifo β → Log ι := Function.update w.log f l

/-- A producer fills a data cell. -/
def putData (w : World ι β) (p : ι) (f : Fifo β) (slot value : Int) : World ι β :=
  { banks := setCell w.banks f.bank (f.start + slot) value
    stamps := setCell w.stamps f.bank (f.start + slot) (w.log f).accepted.length
    log := w.setLog f { w.log f with writing := some p, ready := false }
    dataWrites := (f.bank, f.start + slot) :: w.dataWrites }

/-- A producer moves the write pointer, and the byte in front of it is accepted. -/
def publish (w : World ι β) (f : Fifo β) (wptr value : Int) : World ι β :=
  { w with
    banks := setCell w.banks f.bank f.wptrCell wptr
    log := w.setLog f { w.log f with accepted := (w.log f).accepted ++ [value], writing := none } }

/-- A consumer reads the write pointer, to compare it with its read pointer. -/
def look (w : World ι β) (f : Fifo β) (rptr : Int) : World ι β :=
  { w with log := w.setLog f { w.log f with dequeuing := decide (rptr ≠ w.wptr f) } }

/-- A consumer moves the read pointer past a byte that it has read. It may go on without a look. -/
def release (w : World ι β) (f : Fifo β) (rptr : Int) (stamp : Nat) (value : Int) (more : Bool) :
    World ι β :=
  { w with
    banks := setCell w.banks f.bank f.rptrCell rptr
    log := w.setLog f { w.log f with
      removed := (w.log f).removed + 1
      delivered := (w.log f).delivered ++ [(stamp, value)]
      dequeuing := more } }

/-- The consumer moves the read pointer to `rxWrite`. -/
def resetRx (c : Nat) (w : World ι β) (f : Fifo β) (rxWrite : Int) : World ι β :=
  let removed := (w.log f).removed + ((rxWrite - w.rptr f) % (c + 1)).toNat
  { w with
    banks := setCell w.banks f.bank f.rptrCell rxWrite
    log := w.setLog f { w.log f with
      removed := removed
      resets := (w.log f).resets ++ [(removed, (w.log f).delivered.length)] } }

/-- The producer moves the write pointer to `txRead`. -/
def resetTx (w : World ι β) (f : Fifo β) (txRead : Int) : World ι β :=
  { w with
    banks := setCell w.banks f.bank f.wptrCell txRead
    log := w.setLog f { w.log f with
      removed := (w.log f).accepted.length
      resets := (w.log f).resets ++ [((w.log f).accepted.length, (w.log f).delivered.length)] } }

def markReady (w : World ι β) (f : Fifo β) : World ι β :=
  { w with log := w.setLog f { w.log f with ready := true } }

end World

/-! ## Instructions -/

/-- The half of a bank that a cell lies in. -/
def half (i : Int) : Dir := if i < uartTxStart then .rx else .tx

/-- The value of a cell. The other fields are for the logs: the number of the byte in the cell, and
how many bytes its FIFO held. -/
structure Reading where
  val : Int
  stamp : Nat
  queued : Nat

variable {ι β : Type} [DecidableEq β]

def World.reading (w : World ι β) (b : β) (i : Int) : Reading :=
  { val := w.banks b i, stamp := w.stamps b i, queued := (w.log ⟨b, half i⟩).queued }

def always {σ : Type} (_ : σ) : Bool := true

/-- `read v bank i`. -/
def read (b : β) (i : Int) : Prog (World ι β) Reading := .atomic always id fun w => w.reading b i

/-- `read v bank i` of the write pointer, by a consumer that will compare it with `rptr`. -/
def readWptr (f : Fifo β) (rptr : Int) : Prog (World ι β) Reading :=
  .atomic always (fun w => w.look f rptr) fun w => w.reading f.bank f.wptrCell

/-- `write value bank slot` of a data cell. Where a FIFO has several producers, it does harm when
the write pointer has moved on, the FIFO is full or another producer is about to move the pointer. -/
def writeData (c : Nat) (shared : Fifo β → Bool) (p : ι) (f : Fifo β) (slot value : Int) :
    Prog (World ι β) Unit :=
  .atomic
    (fun w => !shared f ||
      (w.log f).writing.isNone && decide (w.wptr f = slot ∧ (w.log f).queued < c))
    (fun w => w.putData p f slot value) fun _ => ()

/-- `write wptr bank i` of the write pointer, by a producer. -/
def writeWptr (f : Fifo β) (wptr value : Int) : Prog (World ι β) Unit :=
  .atomic always (fun w => w.publish f wptr value) fun _ => ()

/-- `write rptr bank i` of the read pointer, by a consumer that has read `got` and keeps `value`. -/
def writeRptr (f : Fifo β) (rptr : Int) (got : Reading) (value : Int) (more : Bool) :
    Prog (World ι β) Unit :=
  .atomic always (fun w => w.release f rptr got.stamp value more) fun _ => ()

end Mlogv32.Uart
