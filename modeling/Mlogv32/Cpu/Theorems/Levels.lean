import Mlogv32.Cpu.Lemmas.Levels

/-!
# Pending bits of a run

MEIP, MTIP and STIP are right, or the poll flag is raised, wherever the hart fetches or takes
interrupts.
-/

namespace Mlogv32.Cpu
open Mlog Logic Isa

/-- In every run whose stores go to mapped addresses and store words, and in which no store to a
UART control register and no write of sip is stale. -/
theorem reaches_notStale (cfg : Config) {m : Machine} (h : Reaches cfg (LevelsGuard cfg) m)
    (hpoint : m.point = .main ∨ m.point = .fireInterrupts) : NotStale m.hart := by
  have hfresh := h.fresh.fresh
  rcases hpoint with hpoint | hpoint <;> rw [hpoint] at hfresh <;> exact hfresh

/-- `lui x1, 0xf0000`, `lw x2, 0x18(x1)`, `addi x3, x0, 16` and `sw x3, 0x1c(x1)`: enable the
interrupt of UART 0 after its flag is cleared. Then `csrrwi x0, mideleg, 2` and `csrrsi x0, sip, 2`. -/
def enableClearedUart : List Nat :=
  [0xf00000b7, 0x0180a103, 0x01000193, 0x0030ae23, 0x30315073, 0x14416073]

/-- The run of `enableClearedUart`. A device sends a byte to UART 0 after the store. -/
def enableClearedUartEvents : List Event :=
  List.replicate 16 .step ++ [.device fun uartShift i => if uartShift = 0 ∧
    i = 255 then 1 else 0, .tick 1000] ++
    List.replicate 9 .step

/-- The hart of `enableClearedUart` after the write of sip. -/
@[irreducible] def enabledMachine : Machine :=
  (Machine.start (smallBuild (romOfWords enableClearedUart)) fun _ _ => 0).run
    (smallBuild (romOfWords enableClearedUart)) enableClearedUartEvents

theorem reaches_notStale_enableClearedUart :
    enabledMachine.hart.csrMip = 0b100010100010 ∧ NotStale enabledMachine.hart := by
  have hstart : Reaches (smallBuild (romOfWords enableClearedUart))
    (LevelsGuard (smallBuild (romOfWords enableClearedUart)))
      (Machine.start (smallBuild (romOfWords enableClearedUart)) fun _ _ => 0) := .init ⟨_, rfl⟩
  have hkept : ∀ i < 27, ((Machine.start (smallBuild (romOfWords enableClearedUart)) fun _ _ => 0).run
        (smallBuild (romOfWords enableClearedUart)) (enableClearedUartEvents.take i)).storesMapped
          (smallBuild (romOfWords enableClearedUart)) = true ∧
      ((Machine.start (smallBuild (romOfWords enableClearedUart)) fun _ _ => 0).run
        (smallBuild (romOfWords enableClearedUart)) (enableClearedUartEvents.take i)).levelsKept
          (smallBuild (romOfWords enableClearedUart)) = true := by
    decide +kernel
  have hreach : Reaches (smallBuild (romOfWords enableClearedUart))
      (LevelsGuard (smallBuild (romOfWords enableClearedUart))) enabledMachine := by
    unfold enabledMachine
    exact Reachable.run hstart enableClearedUartEvents fun i hi =>
      levelsGuard_of_levelsKept _ (hkept i hi).1 (hkept i hi).2
  exact ⟨by decide +kernel, reaches_notStale _ hreach (Or.inl (by decide +kernel))⟩

/-- `lui x1, 0xf0000`, `addi x2, x0, 16` and `sw x2, 0x1c(x1)`: enable the interrupt of UART 0,
which is pending after a reset because its TX FIFO is empty. -/
def enableUart : List Nat := [0xf00000b7, 0x01000113, 0x0020ae23]

/-- The store leaves MEIP clear and does not raise the poll flag. -/
theorem enableUart_stale :
    ∃ m, m = (Machine.start (smallBuild (romOfWords enableUart)) fun _ _ => 0).run
      (smallBuild (romOfWords enableUart))
        (List.replicate 11 .step) ∧
      m.point = .main ∧ UartLevel m.hart.uartFlags ∧ ¬NotStale m.hart := by
  have hflags : (((Machine.start (smallBuild (romOfWords enableUart)) fun _ _ => 0).run
      (smallBuild (romOfWords enableUart)) (List.replicate 11 .step)).hart.uartFlags = 0b11111 ∧
    bit ((Machine.start (smallBuild (romOfWords enableUart)) fun _ _ => 0).run
      (smallBuild (romOfWords enableUart)) (List.replicate 11 .step)).hart.csrMip 31 = false ∧
    bit ((Machine.start (smallBuild (romOfWords enableUart)) fun _ _ => 0).run
      (smallBuild (romOfWords enableUart)) (List.replicate 11 .step)).hart.csrMip 11 =
        false) := by decide +kernel
  have hlevel : UartLevel 0b11111 := ⟨0, by decide, by decide, by decide⟩
  refine ⟨_, rfl, by decide +kernel, by rw [hflags.1]; exact hlevel, fun h => ?_⟩
  rcases h with hpoll | hok
  · exact absurd (hpoll.symm.trans hflags.2.1) (by decide)
  · have hmeip := hok.meip.mpr (by rw [hflags.1]; exact hlevel)
    exact absurd (hmeip.symm.trans hflags.2.2) (by decide)

end Mlogv32.Cpu
