import Mlogv32.Cpu.Lemmas.Interrupt
import Mlogv32.Cpu.Controller

/-!
# Selection of interrupts

`fire_interrupts` takes the interrupt that the architecture prescribes, unless the highest one is
delegated and another one is not.
-/

namespace Mlogv32.Cpu
open Mlog Isa

/-! ## Outcomes -/

def modeNumber : Mode → Int
  | .user => 0
  | .supervisor => 1
  | .machine => 3

/-- The trap CSRs of a mode. No trap goes to U-mode. -/
def modeCsrs : Mode → TrapCsrs
  | .machine => machineTrapCsrs
  | _ => supervisorTrapCsrs

/-- The interrupt is taken into the mode. -/
structure Takes (cfg : Config) (s : Hart) (i : Interrupt) (m : Mode) (r : Point × Hart) : Prop where
  mode : r.2.privilegeMode = modeNumber m
  cause : r.2.csr cfg (modeCsrs m).cause = 0x80000000 + i.bit
  tval : r.2.csr cfg (modeCsrs m).tval = 0
  epc : r.2.csr cfg (modeCsrs m).epc = s.pc
  nextPc : r.2.nextPc = s.csr cfg (modeCsrs m).tvec

/-- The fire flag of mip is cleared. -/
def clearFire (s : Hart) : Hart := { s with csrMip := opAnd s.csrMip 0b10111111111111111111111111111111 }

/-- The hart ends in `r` after `fire_interrupts`, for the interrupt that is to be taken. -/
def Fires (cfg : Config) (s : Hart) (r : Point × Hart) : Option (Interrupt × Mode) → Prop
  | some (i, m) => Takes cfg s i m r
  | none => r = (.main, clearFire s)

theorem takes_trapMachine (cfg : Config) (i : Interrupt) (s : Hart) :
    Takes cfg s i .machine (trapMachine cfg (interruptTrap i) (clearFire s)) := by
  rw [trapMachine_eq]
  constructor <;>
    simp [modeNumber, modeCsrs, machineTrapCsrs, trapHart, trapProcs, writeProc, Hart.csr, clearFire,
      mcauseCsr, mtvalCsr, mepcCsr, mtvecCsr, interruptTrap, Value.toNum]

theorem takes_trapSupervisor (cfg : Config) (i : Interrupt) (s : Hart) :
    Takes cfg s i .supervisor (trapSupervisor cfg (interruptTrap i) (clearFire s)) := by
  rw [trapSupervisor_eq]
  constructor <;>
    simp [modeNumber, modeCsrs, supervisorTrapCsrs, trapHart, trapProcs, writeProc, Hart.csr, clearFire,
      scauseCsr, stvalCsr, sepcCsr, stvecCsr, interruptTrap, Value.toNum]

/-! ## What the code takes -/

/-- The set of interrupts that the code takes the highest one of. -/
def candidates (cfg : Config) (s : Hart) (i : Interrupt) : Bool :=
  match modeOf s.privilegeMode with
  | .machine => mieBit s && (pending s i && !delegated cfg s i)
  | _ => pending s i

theorem pending_eq (s : Hart) (i : Interrupt) :
    bit (opAnd (clearFire s).csrMip s.csrMie) i.bit = pending s i := by
  have hmask : bit 0b10111111111111111111111111111111 i.bit = true := by cases i <;> decide
  rw [clearFire, bit_opAnd, bit_opAnd, hmask, Bool.and_true]
  rfl

theorem fireInterrupts_eq (cfg : Config) {s : Hart} (hmode : s.privilegeMode ∈ [0, 1, 3])
    (hsie : ¬(s.privilegeMode = 1 ∧ sieBit s = false)) :
    fireInterrupts cfg s =
      afterInterrupt cfg (s.csr cfg midelegCsr) (clearFire s)
        (Interrupt.highest (candidates cfg s)) := by
  have hnone (h : ∀ i, candidates cfg s i = false) : Interrupt.highest (candidates cfg s) = none :=
    Interrupt.highest_eq_none.mpr h
  have hok {interrupts : Int} (h : ∀ i : Interrupt, bit interrupts i.bit = candidates cfg s i) :
      fireInterruptsOk cfg (s.csr cfg midelegCsr) interrupts (clearFire s) =
        afterInterrupt cfg (s.csr cfg midelegCsr) (clearFire s)
          (Interrupt.highest (candidates cfg s)) := by
    rw [fireInterruptsOk_eq, Interrupt.highest_congr h]
  have hfire : fireInterrupts cfg s =
      if opAnd (clearFire s).csrMip s.csrMie = 0 then (.main, clearFire s)
      else if s.privilegeMode < 0b01 then
        fireInterruptsOk cfg (s.csr cfg midelegCsr) (opAnd (clearFire s).csrMip s.csrMie) (clearFire s)
      else if opAnd (opShl 1 s.privilegeMode) s.csrMstatus = 0 then (.main, clearFire s)
      else if s.privilegeMode < 0b11 then
        fireInterruptsOk cfg (s.csr cfg midelegCsr) (opAnd (clearFire s).csrMip s.csrMie) (clearFire s)
      else fireInterruptsOk cfg (s.csr cfg midelegCsr)
        (opAnd (opAnd (clearFire s).csrMip s.csrMie) (opNot (s.csr cfg midelegCsr))) (clearFire s) := rfl
  rw [hfire]
  by_cases hzero : opAnd (clearFire s).csrMip s.csrMie = 0
  · have hpending (i : Interrupt) : pending s i = false := by
      have hlt : i.bit < 64 := by cases i <;> decide
      rw [← pending_eq, bit_opAnd]
      exact opAnd_eq_zero.mp hzero _ hlt
    rw [if_pos hzero, hnone fun i => by unfold candidates; split <;> simp [hpending i]]
    rfl
  rw [if_neg hzero]
  simp only [List.mem_cons, List.not_mem_nil, or_false] at hmode
  rcases hmode with hm | hm | hm
  · rw [if_pos (by omega)]
    exact hok fun i => by rw [pending_eq]; simp [candidates, modeOf, hm]
  · have hxie : ¬opAnd (opShl 1 s.privilegeMode) s.csrMstatus = 0 := by
      rw [hm, opAnd_comm, show opShl 1 1 = 2 ^ 1 by decide, opAnd_two_pow_eq_zero (by decide)]
      exact fun h => hsie ⟨hm, h⟩
    rw [if_neg (by omega), if_neg hxie, if_pos (by omega)]
    exact hok fun i => by rw [pending_eq]; simp [candidates, modeOf, hm]
  · have hxie : opAnd (opShl 1 s.privilegeMode) s.csrMstatus = 0 ↔ mieBit s = false := by
      rw [hm, opAnd_comm, show opShl 1 3 = 2 ^ 3 by decide, opAnd_two_pow_eq_zero (by decide)]
      rfl
    rw [if_neg (by omega), if_neg (show ¬s.privilegeMode < 0b11 by omega)]
    cases hmie : mieBit s with
    | false =>
        rw [if_pos (hxie.mpr hmie), hnone fun i => by simp [candidates, modeOf, hm, hmie]]
        rfl
    | true =>
        rw [if_neg (by rw [hxie, hmie]; decide)]
        refine hok fun i => ?_
        have hlt : i.bit < 64 := by cases i <;> decide
        rw [bit_opAnd, bit_opNot _ hlt, pending_eq]
        simp [candidates, modeOf, hm, hmie, delegated]

/-! ## The architecture -/

/-- Below M-mode, the highest interrupt is delegated and another pending one is not. -/
def MixedDelegation (cfg : Config) (s : Hart) : Prop :=
  s.privilegeMode < 3 ∧ ∃ i j, Interrupt.highest (pending s) = some i ∧ delegated cfg s i = true ∧
    pending s j = true ∧ delegated cfg s j = false

/-- The interrupt that the architecture takes. -/
def prescribed (cfg : Config) (s : Hart) : Option (Interrupt × Mode) :=
  Interrupt.taken (modeOf s.privilegeMode) (mieBit s) (sieBit s) (pending s) (delegated cfg s)

/-- Outside mixed delegation, the architecture takes the interrupt that the code finds, and mideleg
decides the mode. -/
theorem prescribed_eq (cfg : Config) {s : Hart} (hmode : s.privilegeMode ∈ [0, 1, 3])
    (hsie : ¬(s.privilegeMode = 1 ∧ sieBit s = false)) (h : ¬MixedDelegation cfg s) :
    prescribed cfg s = (Interrupt.highest (candidates cfg s)).map fun i =>
      (i, if s.privilegeMode < 3 ∧ delegated cfg s i = true then .supervisor else .machine) := by
  simp only [List.mem_cons, List.not_mem_nil, or_false] at hmode
  have hbelow (hlt : s.privilegeMode < 3) (hne : modeOf s.privilegeMode ≠ .machine)
      (henabled : modeOf s.privilegeMode = .user ∨
        (modeOf s.privilegeMode = .supervisor ∧ sieBit s = true)) :
      prescribed cfg s = (Interrupt.highest (candidates cfg s)).map fun i =>
        (i, if s.privilegeMode < 3 ∧ delegated cfg s i = true then .supervisor else .machine) := by
    have hcandidates : candidates cfg s = pending s := by
      funext i
      unfold candidates
      split
      · rename_i hm
        exact absurd hm hne
      · rfl
    rw [prescribed, hcandidates, Interrupt.taken_below henabled]
    · simp only [hlt, true_and]
    · intro i j hi hdi hpj
      cases hdj : delegated cfg s j with
      | true => rfl
      | false => exact absurd ⟨hlt, i, j, hi, hdi, hpj, hdj⟩ h
  rcases hmode with hm | hm | hm
  · exact hbelow (by omega) (by simp [modeOf, hm]) (Or.inl (by simp [modeOf, hm]))
  · have hs : sieBit s = true := by
      cases hs : sieBit s with
      | true => rfl
      | false => exact absurd ⟨hm, hs⟩ hsie
    exact hbelow (by omega) (by simp [modeOf, hm]) (Or.inr ⟨by simp [modeOf, hm], hs⟩)
  · have hmachine : modeOf s.privilegeMode = .machine := by simp [modeOf, hm]
    have hcandidates : candidates cfg s = fun i => mieBit s && (pending s i && !delegated cfg s i) := by
      funext i
      rw [candidates, hmachine]
    rw [prescribed, hmachine, Interrupt.taken_machine, hcandidates]
    simp [hm]

/-- In mixed delegation, the architecture takes an interrupt into M-mode. -/
theorem MixedDelegation.prescribed {cfg : Config} {s : Hart} (hmode : s.privilegeMode ∈ [0, 1, 3])
    (h : MixedDelegation cfg s) : ∃ i, prescribed cfg s = some (i, .machine) := by
  obtain ⟨hlt, -, j, -, -, hpj, hdj⟩ := h
  have hne : modeOf s.privilegeMode ≠ .machine := by
    simp only [List.mem_cons, List.not_mem_nil, or_false] at hmode
    rcases hmode with hm | hm | hm
    · simp [modeOf, hm]
    · simp [modeOf, hm]
    · omega
  simp only [Cpu.prescribed, Interrupt.taken, hne, ne_eq, not_false_eq_true,
    decide_true, Bool.true_or, if_true]
  cases hm : Interrupt.highest fun i => pending s i && !delegated cfg s i with
  | some i => exact ⟨i, rfl⟩
  | none =>
      have hj := Interrupt.highest_eq_none.mp hm j
      rw [hpj, hdj] at hj
      exact absurd hj (by decide)

theorem afterInterrupt_some (cfg : Config) (s : Hart) (i : Interrupt) :
    afterInterrupt cfg (s.csr cfg midelegCsr) (clearFire s) (some i) =
      if s.privilegeMode > 1 ∨ delegated cfg s i = false then
        trapMachine cfg (interruptTrap i) (clearFire s)
      else trapSupervisor cfg (interruptTrap i) (clearFire s) :=
  trapCheckMxdeleg_interrupt cfg (s.csr cfg midelegCsr) i (clearFire s)

/-- In mixed delegation, the code takes an interrupt into S-mode. -/
theorem MixedDelegation.not_fires {cfg : Config} {s : Hart} (hmode : s.privilegeMode ∈ [0, 1, 3])
    (hsie : ¬(s.privilegeMode = 1 ∧ sieBit s = false)) (h : MixedDelegation cfg s) :
    ¬Fires cfg s (fireInterrupts cfg s) (Cpu.prescribed cfg s) := by
  intro hfires
  obtain ⟨i, hi⟩ := h.prescribed hmode
  obtain ⟨hlt, k, j, hk, hdk, hpj, hdj⟩ := h
  simp only [List.mem_cons, List.not_mem_nil, or_false] at hmode
  have hcandidates : candidates cfg s = pending s := by
    funext i
    unfold candidates
    rcases hmode with hm | hm | hm
    · simp [modeOf, hm]
    · simp [modeOf, hm]
    · omega
  have hle : ¬(s.privilegeMode > 1 ∨ delegated cfg s k = false) := by
    rw [hdk]
    simp only [reduceCtorEq, or_false]
    omega
  rw [fireInterrupts_eq cfg (by simpa using hmode) hsie, hcandidates, hk, hi, afterInterrupt_some,
    if_neg hle] at hfires
  have hboth := hfires.mode.symm.trans (takes_trapSupervisor cfg k s).mode
  exact absurd hboth (by decide)

theorem fires_of_not_mixed {cfg : Config} {s : Hart} (hmode : s.privilegeMode ∈ [0, 1, 3])
    (hsie : ¬(s.privilegeMode = 1 ∧ sieBit s = false)) (h : ¬MixedDelegation cfg s) :
    Fires cfg s (fireInterrupts cfg s) (prescribed cfg s) := by
  rw [fireInterrupts_eq cfg hmode hsie, prescribed_eq cfg hmode hsie h]
  cases hc : Interrupt.highest (candidates cfg s) with
  | none => rfl
  | some i =>
      have hmodes : s.privilegeMode > 1 ↔ ¬s.privilegeMode < 3 := by
        simp only [List.mem_cons, List.not_mem_nil, or_false] at hmode
        omega
      rw [afterInterrupt_some, Option.map_some]
      by_cases hs : s.privilegeMode < 3 ∧ delegated cfg s i = true
      · rw [if_pos hs, if_neg (by simp [hmodes, hs.1, hs.2])]
        exact takes_trapSupervisor cfg i s
      · rw [if_neg hs, if_pos (by rw [hmodes, ← Bool.not_eq_true]; exact not_and_or.mp hs)]
        exact takes_trapMachine cfg i s

/-- Outside S-mode with SIE = 0, `fire_interrupts` takes what the architecture prescribes if and
only if the pending interrupts are not of mixed delegation. -/
theorem fireInterrupts_iff (cfg : Config) (s : Hart) (hmode : s.privilegeMode ∈ [0, 1, 3])
    (hsie : ¬(s.privilegeMode = 1 ∧ sieBit s = false)) :
    Fires cfg s (fireInterrupts cfg s) (prescribed cfg s) ↔ ¬MixedDelegation cfg s :=
  ⟨fun h hmixed => hmixed.not_fires hmode hsie h, fires_of_not_mixed hmode hsie⟩

/-! ## A hart with mixed delegation -/

/-- A hart of the small build in U-mode: MEI is delegated, STI is not, and both are pending. -/
def mixedHart : Hart :=
  { bareHart with
    privilegeMode := 0
    csrMip := 0b100000100000
    csrMie := 0b100000100000
    procs := writeProc bareHart.procs (smallBuild fun _ _ => none).csrs
      (.var midelegCsr) (.num 0b100000000000) }

theorem mixedHart_mixedDelegation : MixedDelegation (smallBuild fun _ _ => none) mixedHart := by
  have hmideleg : mixedHart.csr (smallBuild fun _ _ => none) midelegCsr = 0b100000000000 := by
    simp [mixedHart, Hart.csr, writeProc, Value.toNum]
  refine ⟨by decide, .mei, .sti, by decide, ?_, by decide, ?_⟩
  · rw [delegated, hmideleg]
    decide
  · rw [delegated, hmideleg]
    decide

theorem fireInterrupts_iff_mixedHart :
    Fires (smallBuild fun _ _ => none) mixedHart (fireInterrupts (smallBuild fun _ _ => none) mixedHart)
      (prescribed (smallBuild fun _ _ => none) mixedHart) ↔
    ¬MixedDelegation (smallBuild fun _ _ => none) mixedHart :=
  fireInterrupts_iff (smallBuild fun _ _ => none) mixedHart (by decide) (by decide)

/-- The hart takes MEI into S-mode, although STI is for M-mode. -/
theorem mixedHart_takes_delegated :
    ¬Fires (smallBuild fun _ _ => none) mixedHart (fireInterrupts (smallBuild fun _ _ => none) mixedHart)
      (prescribed (smallBuild fun _ _ => none) mixedHart) :=
  mixedHart_mixedDelegation.not_fires (by decide) (by decide)

end Mlogv32.Cpu
