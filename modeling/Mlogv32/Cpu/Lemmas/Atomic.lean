import Mlogv32.Cpu.Lemmas.Access
import Mlogv32.Cpu.Lemmas.Finish

/-!
# Addresses of atomics

The checks that LR, SC and the AMOs make before they touch memory.
-/

namespace Mlogv32.Cpu
open Mlog Logic Isa

section

variable {cfg : PageConfig} {mcause rs1 : Int} {s s' : Hart}

/-- The translation of the address of an atomic. `mcause` is its misaligned exception. -/
def atomicTranslate (cfg : PageConfig) (mcause rs1 : Int) : Op Int := do
  if (← get).effectivePrivilegeMode < 0b11 then
    translateVirtualAddress cfg { mcause := mcause + 1, mtval := rs1 }
  else return rs1

/-- A translation that fails raises the access fault or the page fault of the access. -/
theorem atomicTranslate_frame (cfg : PageConfig) (mcause rs1 : Int) (s : Hart) :
    wp (atomicTranslate cfg mcause rs1) (fun _ s' => LoadFrame s s')
      (fun t s' => (t = { mcause := mcause + 1, mtval := rs1 } ∨
        t = pageFault { mcause := mcause + 1, mtval := rs1 }) ∧ LoadFrame s s') s := by
  simp only [atomicTranslate, wp_bind, wp_get, wp_ite, wp_pure]
  refine ⟨fun _ => ?_, fun _ => .refl s⟩
  exact wp_mono (translateVirtualAddress_frame cfg _ s) (fun _ _ h => h.1) (fun _ _ h => h)

theorem atomicValidateAddress_eq (cfg : PageConfig) (mcause rs1 : Int) :
    atomicValidateAddress cfg mcause rs1 = (do
      if opMod rs1 4 ≠ 0 then throw { mcause := mcause, mtval := rs1 }
      let address ← atomicTranslate cfg mcause rs1
      if address < ramStart then throw { mcause := mcause + 1, mtval := rs1 }
      if address ≥ cfg.ramEnd then throw { mcause := mcause + 1, mtval := rs1 }
      return address) := by
  funext s
  rw [atomicValidateAddress]
  dsimp only
  by_cases hmod : opMod rs1 4 ≠ 0
  · rw [if_pos hmod, if_pos hmod]
    rfl
  · rw [if_neg hmod, if_neg hmod, bind_get]
    by_cases hmode : s.effectivePrivilegeMode < 0b11
    · have htranslate : atomicTranslate cfg mcause rs1 s =
          translateVirtualAddress cfg { mcause := mcause + 1, mtval := rs1 } s := by
        rw [atomicTranslate, bind_get, if_pos hmode]
      rw [if_pos hmode]
      exact bind_apply_congr htranslate.symm
    · have htranslate : atomicTranslate cfg mcause rs1 s = (pure rs1 : Op Int) s := by
        rw [atomicTranslate, bind_get, if_neg hmode]
      rw [if_neg hmode]
      exact bind_apply_congr htranslate.symm

theorem atomicValidateAddress_misaligned (cfg : PageConfig) (mcause : Int) (h : rs1 % 4 ≠ 0) (s : Hart) :
    atomicValidateAddress cfg mcause rs1 s = .error { mcause := mcause, mtval := rs1 } s := by
  have hmod : opMod rs1 4 ≠ 0 := mt (opMod_eq_zero (by decide)).mp h
  rw [atomicValidateAddress_eq]
  dsimp only
  rw [if_pos hmod]
  rfl

theorem atomicValidateAddress_error {t : Trap} (h : rs1 % 4 = 0)
    (hx : atomicTranslate cfg mcause rs1 s = .error t s') :
    atomicValidateAddress cfg mcause rs1 s = .error t s' := by
  have hmod : ¬opMod rs1 4 ≠ 0 := not_not.mpr ((opMod_eq_zero (by decide)).mpr h)
  rw [atomicValidateAddress_eq]
  dsimp only
  rw [if_neg hmod, bind_error hx]

theorem atomicValidateAddress_ok {a : Int} (h : rs1 % 4 = 0)
    (hx : atomicTranslate cfg mcause rs1 s = .ok a s') :
    atomicValidateAddress cfg mcause rs1 s =
      if InRam cfg a then .ok a s' else .error { mcause := mcause + 1, mtval := rs1 } s' := by
  have hmod : ¬opMod rs1 4 ≠ 0 := not_not.mpr ((opMod_eq_zero (by decide)).mpr h)
  rw [atomicValidateAddress_eq]
  dsimp only
  rw [if_neg hmod, bind_ok hx]
  by_cases hlo : a < ramStart
  · have hram : ¬InRam cfg a := fun hram => absurd hlo (not_lt.mpr hram.1)
    rw [if_pos hlo, if_neg hram]
    rfl
  · rw [if_neg hlo]
    by_cases hhi : a ≥ cfg.ramEnd
    · have hram : ¬InRam cfg a := fun hram => absurd hram.2 (not_lt.mpr hhi)
      rw [if_pos hhi, if_neg hram]
      rfl
    · rw [if_neg hhi, if_pos ⟨not_lt.mp hlo, not_le.mp hhi⟩]
      rfl

end

/-! ## Registers -/

theorem retiredHart_registers (cfg : PageConfig) (s : Hart) (e : End) (i : Int) :
    (retiredHart cfg s e).registers i = if e.rdId ≠ 0 ∧ i = e.rdId then e.rd else s.registers i := by
  have hcounter : ∀ t : Hart, (incrementInstret cfg t).registers = t.registers := by
    intro t
    rw [incrementInstret]
    split <;> rfl
  rw [retiredHart, hcounter, writeRd]
  split
  · rename_i h
    rw [if_neg fun hi => hi.1 h]
  · rename_i h
    by_cases hi : i = e.rdId
    · rw [if_pos ⟨h, hi⟩]
      exact if_pos hi
    · rw [if_neg fun hi' => hi hi'.2]
      exact if_neg hi

theorem finish_registers (cfg : PageConfig) (s : Hart) {e : End} (h : e.retires = true) (i : Int) :
    (finish cfg s e).2.registers i = if e.rdId ≠ 0 ∧ i = e.rdId then e.rd else s.registers i := by
  rw [finish_eq cfg s h, endInstructionTrap_snd]
  exact retiredHart_registers cfg s e i

end Mlogv32.Cpu
