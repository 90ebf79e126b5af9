import Mlogv32.Cpu.Handlers
import Mlogv32.Logic.Wp
import Mlogv32.Uart.Worker

/-!
# Accesses without interference

When no other party runs during an access, it does to the banks what the processor's model does in
one action.
-/

namespace Mlogv32.Uart
open Mlog Logic

variable {ι : Type} {w : World ι Int} {s : Cpu.Hart} {cfg : Cpu.Config} {offset : Int}

/-- The bank that `access_uart` finds. -/
def bankOf (cfg : Cpu.Config) (s : Cpu.Hart) (offset : Int) : Int :=
  (Cpu.accessUart cfg s offset).uartShift

theorem accessUart_alone (hw : w.banks = s.uarts) :
    let u := ((Worker.accessUart cfg.uartFifoCapacity (bankOf cfg s offset)).alone w).1
    let u' := Cpu.accessUart cfg s offset
    u.rxRead.val = u'.rxRead ∧ u.rxWrite.val = u'.rxWrite ∧ u.txRead.val = u'.txRead ∧
      u.txWrite.val = u'.txWrite ∧ u.nextTxWrite = u'.nextTxWrite := by
  dsimp only [Worker.accessUart, bankOf, Cpu.accessUart]
  rw [← hw]
  exact ⟨rfl, rfl, rfl, rfl, rfl⟩

theorem setCell_eq_writeUart (uarts : Cpu.Uarts) (b i v : Int) :
    setCell uarts b i v = Cpu.writeUart uarts b i v := rfl

theorem storeUartTx_alone (hw : w.banks = s.uarts) (shared : Fifo Int → Bool) (p : ι) (value : Int) :
    ((Worker.storeUartTx cfg.uartFifoCapacity shared p (bankOf cfg s offset) value).alone w).2.banks =
      (Cpu.storeUartTx s (Cpu.accessUart cfg s offset) value).uarts := by
  rw [Cpu.storeUartTx, ← hw]
  dsimp only [Cpu.accessUart]
  rw [← hw, Int.add_comm _ Cpu.uartTxStart]
  rfl

theorem storeUartControl_alone (hw : w.banks = s.uarts) (value : Int) :
    ((Worker.storeUartControl cfg.uartFifoCapacity (bankOf cfg s offset) value).alone w).2.banks =
      (Cpu.storeUartControl s (Cpu.accessUart cfg s offset) value).uarts := by
  by_cases h2 : opAnd value 0b10 = 0 <;> by_cases h1 : opAnd value 0b01 = 0 <;>
    simp only [Worker.storeUartControl, Cpu.storeUartControl, Cpu.accessUart, h1, h2, ← hw,
      ne_eq, not_true_eq_false, not_false_eq_true, if_true, if_false] <;> rfl

/-- What the four reads find. -/
def reads (c : Nat) (w : World ι Int) (b : Int) : Worker.Access where
  rxRead := w.reading b Cpu.uartRxRead
  rxWrite := w.reading b Cpu.uartRxWrite
  txRead := w.reading b Cpu.uartTxRead
  txWrite := w.reading b Cpu.uartTxWrite
  nextTxWrite := opMod ((w.reading b Cpu.uartTxWrite).val + 1) (c + 1)

theorem accessUart_bind_alone {α : Type} {c : Nat} {b : Int} (k : Worker.Access → Prog (World ι Int) α) :
    (Worker.accessUart c b >>= k).alone w = (k (reads c w b)).alone w := rfl

theorem loadUartRx_alone (hw : w.banks = s.uarts) (mcause : Int) :
    Cpu.loadUartRx cfg (Cpu.accessUart cfg s offset) mcause s =
      let r := (Worker.loadUartRx cfg.uartFifoCapacity (bankOf cfg s offset) mcause).alone w
      .ok r.1.1 { s with uarts := r.2.banks } := by
  have hread : (reads cfg.uartFifoCapacity w (bankOf cfg s offset)).rxRead.val =
      (Cpu.accessUart cfg s offset).rxRead := by
    dsimp only [reads, bankOf, World.reading, Cpu.accessUart]
    rw [hw]
  have hwrite : (reads cfg.uartFifoCapacity w (bankOf cfg s offset)).rxWrite.val =
      (Cpu.accessUart cfg s offset).rxWrite := by
    dsimp only [reads, bankOf, World.reading, Cpu.accessUart]
    rw [hw]
  rw [Cpu.loadUartRx, bind_get, Worker.loadUartRx, accessUart_bind_alone]
  by_cases hempty : (Cpu.accessUart cfg s offset).rxRead = (Cpu.accessUart cfg s offset).rxWrite
  · rw [if_pos hempty, if_pos (by rw [hread, hwrite, hempty])]
    dsimp only [Prog.pure_eq, Prog.alone_ret]
    rw [hw]
    rfl
  · have hcond : ¬(reads cfg.uartFifoCapacity w (bankOf cfg s offset)).rxRead.val =
        (reads cfg.uartFifoCapacity w (bankOf cfg s offset)).rxWrite.val := by
      rw [hread, hwrite]
      exact hempty
    rw [if_neg hempty, if_neg hcond]
    by_cases hcause : mcause = 7
    · rw [if_pos hcause, if_pos hcause]
      dsimp only [Prog.pure_eq, Prog.alone_ret]
      rw [hw]
      rfl
    · rw [if_neg hcause, if_neg hcause, hread, ← hw]
      rfl

/-- The value of the Status register. Its load also clears the interrupt of the port. -/
theorem loadUartStatus_alone (hw : w.banks = s.uarts) :
    ∃ uartFlags csrMip, Cpu.loadUartStatus cfg (Cpu.accessUart cfg s offset) s = .ok
      ((Worker.loadUartStatus cfg.uartFifoCapacity (bankOf cfg s offset)
        (opShr s.uartFlags (bankOf cfg s offset))).alone w).1.1
      { s with uartFlags := uartFlags, csrMip := csrMip } := by
  have hresult : ((Worker.loadUartStatus cfg.uartFifoCapacity (bankOf cfg s offset)
      (opShr s.uartFlags (bankOf cfg s offset))).alone w).1.1 =
      Worker.statusWord cfg.uartFifoCapacity (opAnd (opShr s.uartFlags (bankOf cfg s offset)) 0b10000)
        (reads cfg.uartFifoCapacity w (bankOf cfg s offset)) := by
    rw [Worker.loadUartStatus, accessUart_bind_alone]
    dsimp only
    split <;> rfl
  rw [hresult]
  dsimp only [Worker.statusWord, reads, World.reading]
  rw [hw, Cpu.loadUartStatus, bind_get]
  by_cases hmask : opAnd s.uartFlags (opShl 1 (Cpu.accessUart cfg s offset).uartShift) ≠ 0
  · exact ⟨_, _, by rw [if_pos hmask]; rfl⟩
  · exact ⟨_, _, by rw [if_neg hmask]; rfl⟩

end Mlogv32.Uart
