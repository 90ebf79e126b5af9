import Mlogv32.Cpu.Lemmas.Trap
import Mlogv32.Isa.Interrupt
import Mlogv32.Mlog.Bits

/-!
# Interrupts

`fire_interrupts__ok` takes the highest interrupt of the set it is given, and mideleg alone decides
the mode.
-/

namespace Mlogv32.Cpu
open Mlog Isa

/-! ## Sets of interrupts -/

/-- A mode by its number. -/
def modeOf (privilegeMode : Int) : Mode :=
  if privilegeMode = 0 then .user else if privilegeMode = 1 then .supervisor else .machine

/-- The interrupts that are set in both mip and mie. -/
def pending (s : Hart) (i : Interrupt) : Bool := bit s.csrMip i.bit && bit s.csrMie i.bit

def delegated (cfg : PageConfig) (s : Hart) (i : Interrupt) : Bool := bit (s.csr cfg midelegCsr) i.bit

/-- The enable bits of mstatus. -/
def mieBit (s : Hart) : Bool := bit s.csrMstatus 3

def sieBit (s : Hart) : Bool := bit s.csrMstatus 1

/-! ## Causes -/

/-- The exception of an interrupt. -/
def interruptTrap (i : Interrupt) : Trap := { mcause := 0x80000000 + i.bit, mtval := 0 }

theorem interruptTrap_mcause (i : Interrupt) : opOr i.bit 0x80000000 = (interruptTrap i).mcause := by
  cases i <;> decide

theorem interrupts_meip_mtip (x : Int) : opAnd x 0b100010000000 =
    (if bit x 7 then 128 else 0) + if bit x 11 then 2048 else 0 :=
  opAnd_two_pow_add x (i := 7) (j := 11) (by decide) (by decide)

theorem interrupts_seip_ssip (x : Int) : opAnd x 0b001000000010 =
    (if bit x 1 then 2 else 0) + if bit x 9 then 512 else 0 :=
  opAnd_two_pow_add x (i := 1) (j := 9) (by decide) (by decide)

theorem interrupts_stip (x : Int) : opAnd x 0b000000100000 = if bit x 5 then 32 else 0 :=
  opAnd_two_pow x (k := 5) (by decide)

/-- The hart after an interrupt is taken, if there is one. -/
def afterInterrupt (cfg : PageConfig) (mideleg : Int) (s : Hart) : Option Interrupt → Point × Hart
  | some i => trapCheckMxdeleg cfg mideleg (interruptTrap i) s
  | none => (.main, s)

theorem fireInterruptsOk_eq (cfg : PageConfig) (mideleg interrupts : Int) (s : Hart) :
    fireInterruptsOk cfg mideleg interrupts s =
      afterInterrupt cfg mideleg s (Interrupt.highest fun i => bit interrupts i.bit) := by
  have hcause {bits : Int} (i : Interrupt) (h : Nat.log2 bits.toNat = i.bit) :
      interrupt cfg mideleg bits s = trapCheckMxdeleg cfg mideleg (interruptTrap i) s := by
    rw [interrupt, h, interruptTrap_mcause]
    rfl
  simp only [fireInterruptsOk, interrupts_meip_mtip, interrupts_seip_ssip,
    interrupts_stip, Interrupt.highest,
    Interrupt.byPriority, List.find?_cons, List.find?_nil, Interrupt.bit]
  cases h11 : bit interrupts 11 with
  | true =>
      cases bit interrupts 7
      · exact hcause .mei (by decide)
      · exact hcause .mei (by decide)
  | false =>
      cases h7 : bit interrupts 7 with
      | true => exact hcause .mti (by decide)
      | false =>
          cases h9 : bit interrupts 9 with
          | true =>
              cases bit interrupts 1
              · exact hcause .sei (by decide)
              · exact hcause .sei (by decide)
          | false =>
              cases h1 : bit interrupts 1 with
              | true => exact hcause .ssi (by decide)
              | false =>
                  cases h5 : bit interrupts 5 with
                  | true => exact hcause .sti (by decide)
                  | false => rfl

/-- mideleg decides the mode of a trap from U-mode or S-mode. -/
theorem trapCheckMxdeleg_interrupt (cfg : PageConfig) (mideleg : Int) (i : Interrupt) (s : Hart) :
    trapCheckMxdeleg cfg mideleg (interruptTrap i) s =
      if s.privilegeMode > 0b01 ∨ bit mideleg i.bit = false then trapMachine cfg (interruptTrap i) s
      else trapSupervisor cfg (interruptTrap i) s := by
  have hshift : opShr mideleg (interruptTrap i).mcause = opShr mideleg i.bit := by
    cases i <;> rfl
  have hlt : i.bit < 64 := by cases i <;> decide
  rw [trapCheckMxdeleg, hshift, opAnd_opShr_one _ hlt]
  by_cases hm : s.privilegeMode > 0b01
  · rw [if_pos hm, if_pos (Or.inl hm)]
  · rw [if_neg hm]
    cases hb : bit mideleg i.bit with
    | false => simp
    | true => simp [hm]

/-- The hart in `fire_interrupts`, with its flag lowered. -/
def loweredHart (s : Hart) : Hart :=
  { s with csrMip := opAnd s.csrMip 0b10111111111111111111111111111111 }

theorem fireInterrupts_cases (cfg : PageConfig) (s : Hart) :
    fireInterrupts cfg s = (.main, loweredHart s) ∨
      ∃ i, fireInterrupts cfg s = trapCheckMxdeleg cfg (s.csr cfg midelegCsr)
        (interruptTrap i) (loweredHart s) := by
  have hok (interrupts : Int) :
      fireInterruptsOk cfg (s.csr cfg midelegCsr) interrupts (loweredHart s) = (.main, loweredHart s) ∨
        ∃ i, fireInterruptsOk cfg (s.csr cfg midelegCsr) interrupts (loweredHart s) =
          trapCheckMxdeleg cfg (s.csr cfg midelegCsr) (interruptTrap i) (loweredHart s) := by
    rw [fireInterruptsOk_eq]
    cases Interrupt.highest fun i => bit interrupts i.bit with
    | none => exact Or.inl rfl
    | some i => exact Or.inr ⟨i, rfl⟩
  unfold fireInterrupts
  dsimp only
  split
  · exact Or.inl rfl
  · split
    · exact hok _
    · split
      · exact Or.inl rfl
      · split
        · exact hok _
        · exact hok _

end Mlogv32.Cpu
