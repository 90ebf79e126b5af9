import Mlogv32.Cpu.Machine

/-!
# The end of an instruction

`finish_eq` says once what the end of a retired instruction does to the hart.
-/

namespace Mlogv32.Cpu
open Mlog

/-- The instruction retires at this end. -/
def End.retires : End → Bool
  | .reset | .lost => false
  | _ => true

/-- mip with the flags that an end raises. -/
def End.raise : End → Int → Int
  | .endInstructionWithRdAndFireInterrupts _ _ => fun mip => opOr mip 0b01000000000000000000000000000000
  | .endInstructionWithRdAndPollInterrupts _ _ => fun mip =>
      opOr (opOr mip 0b10000000000000000000000000000000) 0b01000000000000000000000000000000
  | _ => fun mip => mip

/-- The register that an end writes. -/
def End.rdId : End → Int
  | .endInstructionWithRd rdId _ | .endInstructionWithRdAndFireInterrupts rdId _
  | .endInstructionWithRdAndPollInterrupts rdId _ => rdId
  | _ => 0

def End.rd : End → Int
  | .endInstructionWithRd _ rd | .endInstructionWithRdAndFireInterrupts _ rd
  | .endInstructionWithRdAndPollInterrupts _ rd => rd
  | _ => 0

/-- The hart after the writes of the end of an instruction, before `end_instruction_trap`. -/
def retiredHart (cfg : PageConfig) (s : Hart) (e : End) : Hart :=
  incrementInstret cfg (writeRd { s with csrMip := e.raise s.csrMip } e.rdId e.rd)

theorem finish_eq (cfg : PageConfig) (s : Hart) {e : End} (h : e.retires = true) :
    finish cfg s e = endInstructionTrap (retiredHart cfg s e) := by
  cases e with
  | reset => cases h
  | lost => cases h
  | _ => rfl

theorem endInstructionTrap_snd (s : Hart) : (endInstructionTrap s).2 = { s with pc := s.nextPc } := by
  unfold endInstructionTrap
  dsimp only
  split_ifs <;> rfl

theorem endInstructionTrap_fst (s : Hart) :
    (endInstructionTrap s).1 = if s.csrMip < 0b01000000000000000000000000000000 then .main
      else if s.csrMip < 0b10000000000000000000000000000000 then .fireInterrupts
      else .pollInterrupts := by
  unfold endInstructionTrap
  dsimp only
  split_ifs <;> rfl

@[simp] theorem writeRd_csrMip (s : Hart) (rdId rd : Int) : (writeRd s rdId rd).csrMip = s.csrMip := by
  unfold writeRd
  split <;> rfl

@[simp] theorem incrementInstret_csrMip (cfg : PageConfig) (s : Hart) :
    (incrementInstret cfg s).csrMip = s.csrMip := by
  unfold incrementInstret
  dsimp only
  split <;> rfl

theorem retiredHart_csrMip (cfg : PageConfig) (s : Hart) (e : End) :
    (retiredHart cfg s e).csrMip = e.raise s.csrMip := by
  simp [retiredHart]

theorem finish_csrMip (cfg : PageConfig) (s : Hart) {e : End} (h : e.retires = true) :
    (finish cfg s e).2.csrMip = e.raise s.csrMip := by
  rw [finish_eq cfg s h, endInstructionTrap_snd]
  exact retiredHart_csrMip cfg s e

end Mlogv32.Cpu
