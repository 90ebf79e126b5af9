import Mlogv32.Logic.Threads

/-!
# The buffered UART port of the Rust crate

`BufferedUartPort` reads the same RX FIFO with and without its ring buffer. Bytes may arrive between
any two accesses to the registers.
-/

namespace Mlogv32.Rust
open Logic

/-- The UART and the port. No program reads `received`, `delivered` and `held`. -/
structure Port where
  /-- The RX FIFO. -/
  rx : List UInt8
  /-- The overrun flag of the Status register. -/
  overrun : Bool
  /-- The contents of the `RingBuffer`. -/
  ring : List UInt8
  /-- What is left of the slice that `fill_buf` has returned. -/
  exposed : List UInt8
  received : List UInt8
  delivered : List UInt8
  /-- What a call has taken from the FIFO and not yet handed on. -/
  held : List UInt8
  deriving DecidableEq, Repr

inductive Error where
  | overrun
  deriving DecidableEq, Repr

/-- What a call gives. A call that waits for data is `pending`, and may be dropped. -/
inductive Outcome where
  | pending
  | done
  | err (e : Error)
  | bytes (bytes : List UInt8)
  /-- The answer of `read_ready`, and whether a byte was there when it was found. -/
  | ready (said available : Bool)
  deriving DecidableEq, Repr

/-- A byte is there that was not consumed. -/
def Port.available (s : Port) : Bool := !s.ring.isEmpty || !s.rx.isEmpty

/-! ## Register accesses -/

abbrev Io := Prog Port

def free (_ : Port) : Bool := true

/-- A load of the Status register. -/
def rxNotEmpty : Io Bool := .atomic free id fun s => !s.rx.isEmpty

def overrunError : Io Bool := .atomic free id Port.overrun

/-- A load of the RX register. It does harm if the byte overtakes those in the ring. -/
def readRx (direct : Bool) : Io UInt8 :=
  .atomic (fun s => !direct || s.ring.isEmpty) (fun s =>
    { s with rx := s.rx.tail, held := s.held ++ s.rx.take 1 })
    fun s => s.rx.headD 0

/-! ## UartPort -/

def hasData : Io Bool := rxNotEmpty

def readByte (direct : Bool) : Io (Option UInt8) := do
  if ← hasData then return some (← readRx direct) else return none

/-- `UartPort::read`, for a buffer of a length. -/
def readBytes (direct : Bool) : Nat → Io (List UInt8)
  | 0 => return []
  | n + 1 => do
      match ← readByte direct with
      | some byte => return byte :: (← readBytes direct n)
      | none => return []

/-- The loops that wait for data, for a number of rounds. -/
def waitForData : Nat → Io Bool
  | 0 => return false
  | n + 1 => do if ← hasData then return true else waitForData n

/-- `Read::read` for `UartPort`. The traits `embedded_io` and `embedded_io_async` have the same
body. -/
def uartRead (direct : Bool) (rounds length : Nat) : Io Outcome := do
  if length = 0 then return .bytes []
  if !(← waitForData rounds) then return .pending
  if ← overrunError then return .err .overrun
  return .bytes (← readBytes direct length)

/-! ## BufferedUartPort -/

/-- `push_done`, after the bytes were written to the free part of the ring. -/
def pushDone (bytes : List UInt8) : Io Unit :=
  .atomic free (fun s => { s with ring := s.ring ++ bytes, held := [] }) fun _ => ()

/-- `pop_buf`: the first part of the ring, up to its wrap. -/
def popBuf (part : Nat) : Io Outcome :=
  .atomic free (fun s => { s with exposed := s.ring.take part }) fun s => .bytes (s.ring.take part)

/-- `fill_buf`, where the free part of the ring has `room` bytes. -/
def fillBuf (rounds room part : Nat) : Io Outcome := do
  if ← Prog.atomic free id (fun s => s.ring.isEmpty) then
    if !(← waitForData rounds) then return .pending
    match ← uartRead false rounds room with
    | .bytes bytes =>
        pushDone bytes
        popBuf part
    | outcome => return outcome
  else popBuf part

/-- `pop_done`. -/
def consume (amt : Nat) : Io Outcome :=
  .atomic free
    (fun s => { s with
      ring := s.ring.drop amt
      exposed := s.exposed.drop amt
      delivered := s.delivered ++ s.exposed.take amt })
    fun _ => .done

/-- The return of the bytes of `read` to the caller. -/
def handOver (bytes : List UInt8) : Io Unit :=
  .atomic free (fun s => { s with delivered := s.delivered ++ bytes, held := [] }) fun _ => ()

def read (rounds length : Nat) : Io Outcome := do
  match ← uartRead true rounds length with
  | .bytes bytes =>
      handOver bytes
      return .bytes bytes
  | outcome => return outcome

/-- `read_ready`. The answer does harm if only the ring has bytes. -/
def readReady : Io Outcome :=
  .atomic (fun s => s.ring.isEmpty || !s.rx.isEmpty) id fun s => .ready (!s.rx.isEmpty) s.available

/-! ## The line -/

/-- What happens to the UART. -/
inductive Line where
  | receive (byte : UInt8)
  | overrun (flag : Bool)
  deriving DecidableEq, Repr

def line : Line → Io Outcome
  | .receive byte =>
      .atomic free (fun s => { s with rx := s.rx ++ [byte], received := s.received ++ [byte] })
        fun _ => .done
  | .overrun flag => .atomic free (fun s => { s with overrun := flag }) fun _ => .done

/-! ## The system -/

inductive Party where
  | port
  | line
  deriving DecidableEq, Repr

inductive Call where
  | fillBuf (rounds room part : Nat)
  | consume (amt : Nat)
  | read (rounds length : Nat)
  | readReady
  | line (event : Line)
  deriving DecidableEq, Repr

def body (_ : Party) : Call → Io Outcome
  | .fillBuf rounds room part => fillBuf rounds room part
  | .consume amt => consume amt
  | .read rounds length => read rounds length
  | .readReady => readReady
  | .line event => line event

/-- `consume` gets at most what `fill_buf` exposed. -/
def May : Party → Call → Port → Prop
  | .port, .consume amt, s => amt ≤ s.exposed.length
  | .port, .line _, _ => False
  | .port, _, _ => True
  | .line, .line _, _ => True
  | .line, _, _ => False

instance (p : Party) (call : Call) (s : Port) : Decidable (May p call s) :=
  match p, call with
  | .port, .consume amt => inferInstanceAs (Decidable (amt ≤ s.exposed.length))
  | .port, .line _ => isFalse id
  | .port, .fillBuf .. | .port, .read .. | .port, .readReady => isTrue trivial
  | .line, .line _ => isTrue trivial
  | .line, .fillBuf .. | .line, .consume _ | .line, .read .. | .line, .readReady => isFalse id

def Port.empty : Port :=
  { rx := [], overrun := false, ring := [], exposed := [], received := [], delivered := [], held := [] }

def newPort : Threads Party Port Outcome := { state := .empty, prog := fun _ => .ret .done }

end Mlogv32.Rust
