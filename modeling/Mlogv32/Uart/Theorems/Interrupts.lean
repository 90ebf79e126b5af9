import Mlogv32.Uart.Lemmas.Interrupts

/-!
# Edges of UART interrupts

An edge is lost when a FIFO passes whole laps between two polls that find it in use.
-/

namespace Mlogv32.Uart
open Cpu Mlog Logic Watched

/-- At a poll of a FIFO with an edge, the ip bit of the port is set when it was pending already, or
when the edge of this FIFO or the state of the other one is visible to the controller. -/
theorem poll_ip_iff {cfg : Config} (hc : 1 ≤ cfg.uartFifoCapacity ∧ cfg.uartFifoCapacity ≤ 253)
    {w : Watched} (h : Reachable (Start cfg) (fun _ _ => True) (apply cfg) w) {f : Fifo (Fin 4)}
    (hedge : w.Edge f) :
    (w.ports.Raises f ↔ w.Visible cfg f) ∧
    ((w.apply cfg .poll).ports.ip f.bank = true ↔
      w.ports.ip f.bank = true ∨ ∃ d, ¬w.ports.Idle ⟨f.bank, d⟩ ∧ w.Visible cfg ⟨f.bank, d⟩) := by
  have hinv := inv_of_reachable hc.2 h
  have hraises := hinv.raises_iff hc.2
  constructor
  · rw [hraises f]
    exact and_iff_right hedge.2
  · refine (Ports.ip_poll (hinv.ptr hc.2) f.bank).trans (or_congr_right ?_)
    exact exists_congr fun d => hraises ⟨f.bank, d⟩

/-! ## One-byte FIFOs -/

def oneByte : Config := { smallBuild fun _ _ => none with uartFifoCapacity := 1 }

/-- After a reset with empty FIFOs. -/
def emptyPorts : Watched where
  ports :=
    { uarts := fun _ _ => 0
      uartFlags := 0
      controller := { uartRxInterruptPtrs := 0xffffffff, uartTxInterruptPtrs := 0xffffffff } }
  history f := { idle := decide (f.dir = .rx), noticed := true, moves := 0 }

theorem emptyPorts_start : Start oneByte emptyPorts where
  pointers _ := ⟨⟨le_refl _, zero_le_one⟩, le_refl _, zero_le_one⟩
  uartFlags := rfl
  controller := rfl
  history
    | ⟨_, .rx⟩ => rfl
    | ⟨_, .tx⟩ => rfl

theorem run_reachable (es : List PortEvent) :
    Reachable (Start oneByte) (fun _ _ => True) (apply oneByte) (es.foldl (apply oneByte) emptyPorts) :=
  Reachable.foldl (.init emptyPorts_start) es fun _ _ _ => trivial

/-- A byte is received, the interrupt is served, and the next byte arrives. -/
def serveByte : List PortEvent :=
  [.enqueue ⟨0, .rx⟩ 65, .poll, .loadStatus 0, .dequeue ⟨0, .rx⟩, .enqueue ⟨0, .rx⟩ 66]

theorem poll_ip_iff_serveByte :
    let w := serveByte.foldl (apply oneByte) emptyPorts
    let f : Fifo (Fin 4) := ⟨0, .rx⟩
    (w.apply oneByte .poll).ports.ip f.bank = true ∧
    ((w.apply oneByte .poll).ports.ip f.bank = true ↔
      w.ports.ip f.bank = true ∨ ∃ d, ¬w.ports.Idle ⟨f.bank, d⟩ ∧ w.Visible oneByte ⟨f.bank, d⟩) := by
  intro w f
  refine ⟨by decide +kernel, ?_⟩
  exact (poll_ip_iff (f := f) (by decide) (run_reachable serveByte) (by decide)).2

/-- Two more bytes pass before the next poll. -/
def passLap : List PortEvent := serveByte ++ [.dequeue ⟨0, .rx⟩, .enqueue ⟨0, .rx⟩ 67]

/-- The read pointer is back where it was, and the last byte raises no interrupt. -/
theorem passLap_loses_edge :
    ¬∀ cfg : Config, 1 ≤ cfg.uartFifoCapacity ∧ cfg.uartFifoCapacity ≤ 253 →
      ∀ w, Reachable (Start cfg) (fun _ _ => True) (apply cfg) w →
        ∀ f, w.Edge f → (w.apply cfg .poll).ports.ip f.bank = true := by
  intro h
  have hedge : (passLap.foldl (apply oneByte) emptyPorts).Edge ⟨0, .rx⟩ := by decide +kernel
  have hlost : ((passLap.foldl (apply oneByte) emptyPorts).apply oneByte .poll).ports.ip 0 ≠
    true := by decide +kernel
  exact hlost (h oneByte (by decide) _ (run_reachable passLap) ⟨0, .rx⟩ hedge)

end Mlogv32.Uart
