import Mlogv32.Cpu.Lemmas.Width
import Mlogv32.Cpu.Theorems.Privilege

/-!
# Widths

The registers, pc and the counters are words between two instructions, in every run without one of
the carries that the code leaves out: out of pc at the top of the address space, and out of the high
half of a counter.
-/

namespace Mlogv32.Cpu
open Mlog Logic Isa

variable {cfg : PageConfig}

/-- The widths of the architecture. -/
structure Widths (cfg : PageConfig) (s : Hart) : Prop where
  registers : ∀ i, 1 ≤ i → i ≤ 31 → IsWord (s.registers i)
  x0 : s.registers 0 = 0
  pc : IsWord s.pc ∧ s.pc % 4 = 0
  mcycle : IsWord s.csrMcycle ∧ IsWord (s.csr cfg mcyclehCsr)
  minstret : IsWord s.csrMinstret ∧ IsWord (s.csr cfg minstrethCsr)

/-- In every run whose fast stores meet mapped addresses, and without a carry out of the address
space or of the high half of a counter: between two instructions x1 to x31 are words and x0 is 0, pc
is a word and a multiple of 4, and the halves of mcycle and minstret are words. -/
theorem reaches_widths (cfg : PageConfig) {m : Machine}
    (h : Reaches cfg (fun m e => SwMapped cfg m e ∧ NoCarry cfg m e) m)
    (hboundary : m.point.isBoundary = true) : Widths cfg m.hart := by
  have hm : WordMachine cfg m := by
    refine Reachable.invariant (fun m hm => ?_) (fun m e hm hg => hm.apply e hg.1 hg.2) h
    obtain ⟨uarts, rfl⟩ := hm
    exact wordMachine_start cfg uarts
  have hw := hm.words
  have hminstret : IsWord m.hart.csrMinstret := by
    have hp := hm.point
    cases hpoint : m.point <;> rw [hpoint] at hp hboundary <;> first | exact hp | cases hboundary
  exact ⟨fun i h1 h31 => hw.registers i (by omega) (by omega), hw.x0,
    ⟨hw.pc, hm.sound.hart.pc.2⟩, ⟨hw.mcycle, hw.csrs mcyclehCsr⟩, hminstret,
    hw.csrs minstrethCsr⟩

/-- A check for `SwMapped` and `NoCarry`. -/
def Machine.keepsWidths (cfg : PageConfig) (m : Machine) : Event → Bool
  | .step => m.storesMapped cfg &&
      match m.point with
      | .execute _ _ _ => m.hart.pc ≠ topPc
      | .ending _ => m.hart.csr cfg minstrethCsr * 2 ^ 32 + m.hart.csrMinstret + 1 < 2 ^ 64
      | _ => true
  | .handOff => m.hart.csr cfg mcyclehCsr * 2 ^ 32 + m.hart.csrMcycle + 1 < 2 ^ 64
  | .tick delta => m.hart.csrMtimeh * 2 ^ 32 + saturate ⌊number (m.hart.csrMtime + delta)⌋ < 2 ^ 64
  | _ => true

theorem swMapped_of_storesOk {m : Machine} {e : Event} (h : StoresOk cfg m e) :
    SwMapped cfg m e := by
  cases e with
  | step =>
      unfold SwMapped
      cases hpoint : m.point with
      | execute d rs1 rs2 =>
          rw [StoresOk, hpoint] at h
          exact fun hlabel => (h .SW hlabel).2 rfl
      | _ => trivial
  | _ => trivial

theorem Machine.keepsWidths_sound {m : Machine} {e : Event} (h : m.keepsWidths cfg e = true) :
    SwMapped cfg m e ∧ NoCarry cfg m e := by
  cases e with
  | step =>
      obtain ⟨hstores, hcarry⟩ := Bool.and_eq_true_iff.mp h
      refine ⟨swMapped_of_storesOk (storesOk_of_storesMapped .step hstores), ?_⟩
      unfold NoCarry
      cases hpoint : m.point with
      | execute d rs1 rs2 =>
          rw [hpoint] at hcarry
          exact fun htop => absurd htop (of_decide_eq_true hcarry)
      | ending e =>
          rw [hpoint] at hcarry
          exact fun _ => of_decide_eq_true hcarry
      | _ => trivial
  | handOff => exact ⟨trivial, fun _ => of_decide_eq_true h⟩
  | tick delta => exact ⟨trivial, fun _ => of_decide_eq_true h⟩
  | device uarts => exact ⟨trivial, trivial⟩
  | reset => exact ⟨trivial, trivial⟩

/-- The widths after the return from the handler of `delegatedEcall`. -/
theorem reaches_widths_delegatedEcall :
    delegatedMachine.hart.csrMcycle = 1 ∧
      Widths (smallBuild (romOfWords delegatedEcall)) delegatedMachine.hart := by
  have hstart : Reaches (smallBuild (romOfWords delegatedEcall)) (fun m e =>
      SwMapped (smallBuild (romOfWords delegatedEcall)) m e ∧
        NoCarry (smallBuild (romOfWords delegatedEcall)) m e)
      (Machine.start (smallBuild (romOfWords delegatedEcall)) fun _ _ => 0) := .init ⟨_, rfl⟩
  have hcheck : ∀ i, ∀ hi : i < delegatedEvents.length,
      ((Machine.start (smallBuild (romOfWords delegatedEcall)) fun _ _ => 0).run
        (smallBuild (romOfWords delegatedEcall)) (delegatedEvents.take i)).keepsWidths
        (smallBuild (romOfWords delegatedEcall)) delegatedEvents[i] = true := by
    decide +kernel
  have hreach : Reaches (smallBuild (romOfWords delegatedEcall)) (fun m e =>
      SwMapped (smallBuild (romOfWords delegatedEcall)) m e ∧
        NoCarry (smallBuild (romOfWords delegatedEcall)) m e) delegatedMachine := by
    unfold delegatedMachine
    exact Reachable.run hstart delegatedEvents fun i hi => Machine.keepsWidths_sound (hcheck i hi)
  exact ⟨by decide +kernel, reaches_widths _ hreach (by decide +kernel)⟩

/-- `addi x1, x0, -1`, writes of x1 to minstreth and to minstret, and an instruction that counts. -/
def wrapMinstret : List Nat := [0xfff00093, 0xb8209073, 0xb0209073, 0x00000013]

/-- The carry of minstret leaves 2^32 in minstreth. -/
theorem wrapMinstret_breaks_widths :
    ∃ m, m = (Machine.start (smallBuild (romOfWords wrapMinstret)) fun _ _ => 0).run
        (smallBuild (romOfWords wrapMinstret)) (List.replicate 14 .step) ∧
      m.point = .main ∧ ¬Widths (smallBuild (romOfWords wrapMinstret)) m.hart := by
  refine ⟨_, rfl, by decide +kernel, fun h => ?_⟩
  have hhigh : ((Machine.start (smallBuild (romOfWords wrapMinstret)) fun _ _ => 0).run
      (smallBuild (romOfWords wrapMinstret)) (List.replicate 14 .step)).hart.csr
        (smallBuild (romOfWords wrapMinstret)) minstrethCsr = 2 ^ 32 := by decide +kernel
  exact absurd (hhigh ▸ h.minstret.2.2) (by decide)

end Mlogv32.Cpu
