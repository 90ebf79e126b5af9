import Mlogv32.Logic.Ring
import Mlogv32.Uart.Peripherals

/-!
# A system of UART parties

Any number of processors, links, keyboards, displays and hosts, each connected to some of the FIFOs.
-/

namespace Mlogv32.Uart
open Cpu Mlog Logic

variable {ι β : Type} [DecidableEq β]

/-- Who writes and who reads each FIFO. Only an RX FIFO can have several producers. -/
structure Wiring (ι β : Type) (shared : Fifo β → Bool) where
  produces : ι → Fifo β → Prop
  consumes : ι → Fifo β → Prop
  sole_producer : ∀ f p q, shared f = false → produces p f → produces q f → p = q
  sole_consumer : ∀ f p q, consumes p f → consumes q f → p = q
  shared_rx : ∀ f, shared f = true → f.dir = .rx

/-- What a party can do next. -/
inductive Op (β : Type) where
  | loadUartRx (b : β) (mcause : Int)
  | loadUartStatus (b : β) (uartFlags : Int)
  /-- A load of a register that is not readable, or a store to one that is not writable. -/
  | accessUart (b : β)
  | storeUartTx (b : β) (value : Int)
  | storeUartControl (b : β) (value : Int)
  | link (bank1 bank2 : β)
  | waitForUart (b : β) (letter : Int)
  | display (b : β) (rounds : Nat)
  | scrollingDisplay (b : β) (rounds : Nat)
  | hostRead (b : β)
  | hostReadAll (b : β)
  | hostWrite (b : β) (byte : UInt8)

namespace Op

/-- The program of an operation, with the answers that the party gets. -/
def body (c : Nat) (shared : Fifo β → Bool) (p : ι) : Op β → Prog (World ι β) (List (Answer β))
  | loadUartRx b mcause => do return (← Worker.loadUartRx c b mcause).2
  | loadUartStatus b uartFlags => do return (← Worker.loadUartStatus c b uartFlags).2
  | accessUart b => do
      let _ ← Worker.accessUart c b
      return []
  | storeUartTx b value => do
      Worker.storeUartTx c shared p b value
      return []
  | storeUartControl b value => do
      Worker.storeUartControl c b value
      return []
  | link bank1 bank2 => UartLink.round c shared p bank1 bank2
  | waitForUart b letter => Uart.waitForUart c shared p b letter
  | display b rounds => Display.reset c b rounds
  | scrollingDisplay b rounds => ScrollingDisplay.reset c b rounds
  | hostRead b => UartAccess.readProg c b
  | hostReadAll b => UartAccess.readAllProg c b
  | hostWrite b byte => UartAccess.writeProg c shared p b byte

/-- The operation uses only FIFOs that its party is connected to. -/
def Connected {shared : Fifo β → Bool} (W : Wiring ι β shared) (p : ι) : Op β → Prop
  | loadUartRx b _ => W.consumes p ⟨b, .rx⟩
  | loadUartStatus b _ | storeUartControl b _ => W.consumes p ⟨b, .rx⟩ ∧ W.produces p ⟨b, .tx⟩
  | accessUart _ => True
  | storeUartTx b _ => W.produces p ⟨b, .tx⟩
  | link bank1 bank2 =>
      (W.consumes p ⟨bank1, .tx⟩ ∧ W.produces p ⟨bank2, .rx⟩) ∧
        W.consumes p ⟨bank2, .tx⟩ ∧ W.produces p ⟨bank1, .rx⟩
  | waitForUart b _ | hostWrite b _ => W.produces p ⟨b, .rx⟩
  | display b _ | scrollingDisplay b _ | hostRead b | hostReadAll b => W.consumes p ⟨b, .tx⟩

/-- A store to TX follows a Status read that showed TX not full. -/
def Checked (w : World ι β) : Op β → Prop
  | storeUartTx b _ => (w.log ⟨b, .tx⟩).ready = true
  | _ => True

/-- A store to TX finds room in the FIFO. -/
def HasRoom (c : Nat) (w : World ι β) : Op β → Prop
  | storeUartTx b _ => (w.log ⟨b, .tx⟩).queued < c
  | _ => True

def IsReset : Op β → Prop
  | storeUartControl _ value => opAnd value 0b10 ≠ 0 ∨ opAnd value 0b01 ≠ 0
  | _ => False

end Op

/-- All FIFOs are empty, and no party is in the middle of an operation. -/
structure Idle (c : Nat) (t : Threads ι (World ι β) (List (Answer β))) : Prop where
  state : ∃ banks, t.state = .start banks
  pointers : ∀ f, (0 ≤ t.state.rptr f ∧ t.state.rptr f ≤ c) ∧ t.state.wptr f = t.state.rptr f
  prog : ∀ p, t.prog p = .ret []

/-- The queue between the pointers of a FIFO. -/
def World.content (c : Nat) (w : World ι β) (f : Fifo β) : List Int :=
  contents c (fun i => w.banks f.bank (f.start + i)) (w.rptr f) (w.wptr f)

end Mlogv32.Uart
