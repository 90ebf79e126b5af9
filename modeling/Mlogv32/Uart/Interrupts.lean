import Mlogv32.Cpu.Controller
import Mlogv32.Mlog.Bits
import Mlogv32.Uart.World

/-!
# UART interrupts

An interrupt tells that RX has become non-empty or TX empty. The controller does not see the change.
It compares the pointer with the one it recorded when it last raised an interrupt for the FIFO. Here
the accesses to the FIFOs and the polls of the controller follow each other in any order.
-/

namespace Mlogv32.Uart
open Cpu Mlog

/-- The four banks, with the flags and the recorded pointers. -/
structure Ports where
  uarts : Uarts
  uartFlags : Int
  controller : Controller

inductive PortEvent where
  /-- A producer adds a value. -/
  | enqueue (f : Fifo (Fin 4)) (value : Int)
  /-- A consumer takes a value. -/
  | dequeue (f : Fifo (Fin 4))
  /-- The processor loads the Status register. -/
  | loadStatus (u : Fin 4)
  | poll

namespace Ports

def ofMachine (m : Machine) : Ports :=
  { uarts := m.hart.uarts, uartFlags := m.hart.uartFlags, controller := m.controller }

/-! ## Pointers -/

def rptr (p : Ports) (f : Fifo (Fin 4)) : Int := p.uarts f.bank.val f.rptrCell

def wptr (p : Ports) (f : Fifo (Fin 4)) : Int := p.uarts f.bank.val f.wptrCell

/-- The FIFO has nothing to report: RX is empty, or TX is not. -/
def Idle (p : Ports) (f : Fifo (Fin 4)) : Prop :=
  match f.dir with
  | .rx => p.rptr f = p.wptr f
  | .tx => p.rptr f ≠ p.wptr f

instance (p : Ports) : (f : Fifo (Fin 4)) → Decidable (p.Idle f)
  | ⟨b, .rx⟩ => inferInstanceAs (Decidable (p.rptr ⟨b, .rx⟩ = p.wptr ⟨b, .rx⟩))
  | ⟨b, .tx⟩ => inferInstanceAs (Decidable (p.rptr ⟨b, .tx⟩ ≠ p.wptr ⟨b, .tx⟩))

/-- The pointer that is compared. -/
def ptr (p : Ports) (f : Fifo (Fin 4)) : Int :=
  match f.dir with
  | .rx => p.rptr f
  | .tx => p.wptr f

def interruptPtrs (c : Controller) (d : Dir) : Int :=
  match d with
  | .rx => c.uartRxInterruptPtrs
  | .tx => c.uartTxInterruptPtrs

/-- `_prev_ptr`. -/
def prevPtr (p : Ports) (f : Fifo (Fin 4)) : Int :=
  opAnd (opShr (interruptPtrs p.controller f.dir) (f.bank.val * 8)) 0xff

/-- A poll would come to `op or uart_flags` for the FIFO. -/
def Raises (p : Ports) (f : Fifo (Fin 4)) : Prop := ¬p.Idle f ∧ p.prevPtr f ≠ p.ptr f

instance (p : Ports) (f : Fifo (Fin 4)) : Decidable (p.Raises f) := inferInstanceAs (Decidable (_ ∧ _))

/-- The ip bit of a port. -/
def ip (p : Ports) (u : Fin 4) : Bool := bit p.uartFlags u.val

/-! ## Events -/

/-- A full FIFO takes no value. -/
def enqueue (cfg : Config) (p : Ports) (f : Fifo (Fin 4)) (value : Int) : Ports :=
  let next := opMod (p.wptr f + 1) cfg.uartFifoModulo
  if next = p.rptr f then p
  else
    let uarts := writeUart p.uarts f.bank.val (p.wptr f + f.start) value
    { p with uarts := writeUart uarts f.bank.val f.wptrCell next }

/-- An empty FIFO gives no value. -/
def dequeue (cfg : Config) (p : Ports) (f : Fifo (Fin 4)) : Ports :=
  if p.rptr f = p.wptr f then p
  else
    { p with uarts := writeUart p.uarts f.bank.val f.rptrCell (opMod (p.rptr f + 1) cfg.uartFifoModulo) }

def loadStatus (p : Ports) (u : Fin 4) : Ports :=
  let mask := opAnd p.uartFlags (opShl 1 u.val)
  if mask = 0 then p else { p with uartFlags := opAnd p.uartFlags (opNot mask) }

def poll (p : Ports) : Ports :=
  let u := updateUartFlags p.uarts p.uartFlags p.controller
  { p with uartFlags := u.1, controller := u.2 }

def apply (cfg : Config) (p : Ports) : PortEvent → Ports
  | .enqueue f value => p.enqueue cfg f value
  | .dequeue f => p.dequeue cfg f
  | .loadStatus u => p.loadStatus u
  | .poll => p.poll

end Ports

/-! ## History -/

/-- What has happened to a FIFO since the last poll that raised an interrupt for it, or since the
reset when there was none. -/
structure History where
  /-- The FIFO has been idle at some moment. -/
  idle : Bool
  /-- A poll has found it idle, or none has raised an interrupt yet. -/
  noticed : Bool
  /-- How often the pointer that is compared has moved. -/
  moves : Nat
  deriving DecidableEq, Repr

def History.after (cfg : Config) (p : Ports) (f : Fifo (Fin 4)) (h : History) (e : PortEvent) :
    History :=
  let p' := p.apply cfg e
  match e with
  | .poll =>
      if p.Raises f then { idle := false, noticed := false, moves := 0 }
      else { h with noticed := h.noticed || decide (p.Idle f) }
  | _ =>
      { h with
        idle := h.idle || decide (p'.Idle f)
        moves := if p'.ptr f = p.ptr f then h.moves else h.moves + 1 }

/-- The ports with the history of each FIFO, which no program reads. -/
structure Watched where
  ports : Ports
  history : Fifo (Fin 4) → History

namespace Watched

def apply (cfg : Config) (w : Watched) (e : PortEvent) : Watched :=
  { ports := w.ports.apply cfg e
    history := fun f => (w.history f).after cfg w.ports f e }

/-- A reset of the controller, before its first poll. The FIFOs may hold bytes. -/
structure Start (cfg : Config) (w : Watched) : Prop where
  pointers : ∀ f, (0 ≤ w.ports.rptr f ∧ w.ports.rptr f ≤ cfg.uartFifoCapacity) ∧
    0 ≤ w.ports.wptr f ∧ w.ports.wptr f ≤ cfg.uartFifoCapacity
  uartFlags : w.ports.uartFlags = 0
  controller : w.ports.controller =
    { uartRxInterruptPtrs := 0xffffffff, uartTxInterruptPtrs := 0xffffffff }
  history : ∀ f, w.history f = { idle := decide (w.ports.Idle f), noticed := true, moves := 0 }

/-- The FIFO has been idle since the last poll that raised an interrupt for it, and is not idle now. -/
def Edge (w : Watched) (f : Fifo (Fin 4)) : Prop := (w.history f).idle = true ∧ ¬w.ports.Idle f

instance (w : Watched) (f : Fifo (Fin 4)) : Decidable (w.Edge f) := inferInstanceAs (Decidable (_ ∧ _))

/-- The pointer has not come back to where it was when the last interrupt was raised, or a poll has
found the FIFO idle meanwhile. -/
def Visible (cfg : Config) (w : Watched) (f : Fifo (Fin 4)) : Prop :=
  (w.history f).noticed = true ∨ ¬cfg.uartFifoCapacity + 1 ∣ (w.history f).moves

end Watched

end Mlogv32.Uart
