import Mlogv32.Cpu.Lemmas.Finish

/-!
# What a trap changes

`trap_eq` says once what a trap into either mode does to the hart. The frame lemmas follow from it.
-/

namespace Mlogv32.Cpu
open Mlog

/-- The CSRs of the mode that takes a trap. -/
structure TrapCsrs where
  cause : Nat
  tval : Nat
  epc : Nat
  tvec : Nat

def supervisorTrapCsrs : TrapCsrs := ⟨scauseCsr, stvalCsr, sepcCsr, stvecCsr⟩

def machineTrapCsrs : TrapCsrs := ⟨mcauseCsr, mtvalCsr, mepcCsr, mtvecCsr⟩

/-- CSRS after the writes of a trap. -/
def trapProcs (cfg : PageConfig) (c : TrapCsrs) (t : Trap) (s : Hart) : Procs :=
  writeProc (writeProc (writeProc s.procs cfg.csrs (.var c.cause) (.num t.mcause)) cfg.csrs
    (.var c.tval) (.num t.mtval)) cfg.csrs (.var c.epc) (.num s.pc)

/-- The hart after a trap, up to mstatus and the effective privilege mode. -/
def trapHart (cfg : PageConfig) (c : TrapCsrs) (t : Trap) (mode mstatus effectiveMode : Int) (s : Hart) :
    Hart :=
  let nextPc := (trapProcs cfg c t s cfg.csrs c.tvec).toNum
  { s with
    csrMstatus := mstatus
    privilegeMode := mode
    effectivePrivilegeMode := effectiveMode
    icacheVar := .null
    nextPc := nextPc
    pc := if nextPc = syscon then s.pc else nextPc
    procs := trapProcs cfg c t s }

/-- The label after a trap. A trap to the default trap vector halts the hart. -/
def trapPoint (nextPc csrMip : Int) : Point :=
  if nextPc = syscon then .reset
  else if csrMip < 0b01000000000000000000000000000000 then .main
  else if csrMip < 0b10000000000000000000000000000000 then .fireInterrupts
  else .pollInterrupts

/-- The effective privilege mode for a value of mstatus and a privilege mode. -/
def effectiveMode (mstatus mode : Int) : Int :=
  if opAnd mstatus 0b100000000000000000 = 0 then mode else opAnd (opShr mstatus 11) 0b11

theorem trapCommon_eq (xpie xpp : Int) (s : Hart) :
    trapCommon xpie xpp s =
      (trapPoint s.nextPc s.csrMip,
        { s with
          csrMstatus := opOr (opOr s.csrMstatus (opShl xpie 4)) xpp
          effectivePrivilegeMode :=
            effectiveMode (opOr (opOr s.csrMstatus (opShl xpie 4)) xpp) s.privilegeMode
          icacheVar := .null
          pc := if s.nextPc = syscon then s.pc else s.nextPc }) := by
  unfold trapCommon trapPoint getEffectivePrivilegeModeAndInvalidateIcache getEffectivePrivilegeMode
  dsimp only
  by_cases h : s.nextPc = syscon
  · rw [if_pos h, if_pos h, if_pos h]
    rfl
  · rw [if_neg h, if_neg h, if_neg h, Prod.ext_iff, endInstructionTrap_snd, endInstructionTrap_fst]
    exact ⟨rfl, rfl⟩

/-- mstatus after a trap into S-mode: SPIE takes the value of SIE, SIE is 0, and SPP is the old
mode. -/
def supervisorTrapMstatus (s : Hart) : Int :=
  opOr (opOr (opAnd s.csrMstatus 0b11111111111111111111111011011101) (opShl (opAnd s.csrMstatus 0b10) 4))
    (opShl s.privilegeMode 8)

def machineTrapMstatus (s : Hart) : Int :=
  opOr (opOr (opAnd s.csrMstatus 0b11111111111111111110011101110111)
    (opShl (opAnd s.csrMstatus 0b1000) 4))
    (opShl s.privilegeMode 11)

theorem trapSupervisor_eq (cfg : PageConfig) (t : Trap) (s : Hart) :
    trapSupervisor cfg t s =
      (trapPoint (trapProcs cfg supervisorTrapCsrs t s cfg.csrs stvecCsr).toNum s.csrMip,
        trapHart cfg supervisorTrapCsrs t 0b01 (supervisorTrapMstatus s)
          (effectiveMode (supervisorTrapMstatus s) 0b01) s) :=
  trapCommon_eq (opAnd s.csrMstatus 0b10) (opShl s.privilegeMode 8)
    { s with
      csrMstatus := opAnd s.csrMstatus 0b11111111111111111111111011011101
      procs := trapProcs cfg supervisorTrapCsrs t s
      nextPc := (trapProcs cfg supervisorTrapCsrs t s cfg.csrs stvecCsr).toNum
      privilegeMode := 0b01 }

theorem trapMachine_eq (cfg : PageConfig) (t : Trap) (s : Hart) :
    trapMachine cfg t s =
      (trapPoint (trapProcs cfg machineTrapCsrs t s cfg.csrs mtvecCsr).toNum s.csrMip,
        trapHart cfg machineTrapCsrs t 0b11 (machineTrapMstatus s)
          (effectiveMode (machineTrapMstatus s) 0b11) s) :=
  trapCommon_eq (opAnd s.csrMstatus 0b1000) (opShl s.privilegeMode 11)
    { s with
      csrMstatus := opAnd s.csrMstatus 0b11111111111111111110011101110111
      procs := trapProcs cfg machineTrapCsrs t s
      nextPc := (trapProcs cfg machineTrapCsrs t s cfg.csrs mtvecCsr).toNum
      privilegeMode := 0b11 }

/-- The mode decides whether a trap can be delegated, and the bit of its cause whether it is. -/
theorem trapCheckMxdeleg_cases (cfg : PageConfig) (mxdeleg : Int) (t : Trap) (s : Hart) :
    (s.privilegeMode ≤ 0b01 ∧ opAnd (opShr mxdeleg t.mcause) 0b1 ≠ 0 ∧
      trapCheckMxdeleg cfg mxdeleg t s = trapSupervisor cfg t s) ∨
    ((0b01 < s.privilegeMode ∨ opAnd (opShr mxdeleg t.mcause) 0b1 = 0) ∧
      trapCheckMxdeleg cfg mxdeleg t s = trapMachine cfg t s) := by
  unfold trapCheckMxdeleg
  split_ifs with hmode hbit
  · exact Or.inr ⟨Or.inl hmode, rfl⟩
  · exact Or.inr ⟨Or.inr hbit, rfl⟩
  · exact Or.inl ⟨not_lt.mp hmode, hbit, rfl⟩

/-- A trap goes to S-mode or to M-mode. -/
theorem trapCheckMxdeleg_eq (cfg : PageConfig) (mxdeleg : Int) (t : Trap) (s : Hart) :
    ∃ c mode mstatus effectiveMode,
      ((c = supervisorTrapCsrs ∧ mode = 0b01 ∧ s.privilegeMode ≤ 0b01) ∨
        (c = machineTrapCsrs ∧ mode = 0b11)) ∧
      trapCheckMxdeleg cfg mxdeleg t s =
        (trapPoint (trapProcs cfg c t s cfg.csrs c.tvec).toNum s.csrMip,
          trapHart cfg c t mode mstatus effectiveMode s) := by
  unfold trapCheckMxdeleg
  split_ifs with h1 h2
  · exact ⟨machineTrapCsrs, 0b11, _, _, Or.inr ⟨rfl, rfl⟩, trapMachine_eq cfg t s⟩
  · exact ⟨machineTrapCsrs, 0b11, _, _, Or.inr ⟨rfl, rfl⟩, trapMachine_eq cfg t s⟩
  · exact ⟨supervisorTrapCsrs, 0b01, _, _, Or.inl ⟨rfl, rfl, by omega⟩, trapSupervisor_eq cfg t s⟩

/-- A write to a processor leaves the other processors alone. -/
theorem writeProc_of_ne (procs : Procs) {t t' : Tile} (position x : Value) (h : t' ≠ t) :
    writeProc procs t position x t' = procs t' := by
  cases position with
  | var i =>
      funext j
      simp [writeProc, h]
  | null => rfl
  | num n => rfl

theorem trapProcs_of_ne (cfg : PageConfig) (c : TrapCsrs) (t : Trap) (s : Hart) {t' : Tile}
    (h : t' ≠ cfg.csrs) : trapProcs cfg c t s t' = s.procs t' := by
  rw [trapProcs, writeProc_of_ne _ _ _ h, writeProc_of_ne _ _ _ h, writeProc_of_ne _ _ _ h]

theorem trapProcs_csr (cfg : PageConfig) (c : TrapCsrs) (t : Trap) (s : Hart) {n : Nat}
    (h : n ≠ c.cause ∧ n ≠ c.tval ∧ n ≠ c.epc) :
    trapProcs cfg c t s cfg.csrs n = s.procs cfg.csrs n := by
  have hne {m : Nat} (hm : n ≠ m) (procs : Procs) (x : Value) :
      writeProc procs cfg.csrs (.var m) x cfg.csrs n = procs cfg.csrs n := if_neg fun h => hm h.2
  rw [trapProcs, hne h.2.2, hne h.2.1, hne h.1]

theorem trap_registers (cfg : PageConfig) (t : Trap) (s : Hart) :
    (trap cfg t s).2.registers = s.registers := by
  obtain ⟨c, mode, mstatus, e, -, h⟩ := trapCheckMxdeleg_eq cfg (s.csr cfg medelegCsr) t s
  rw [trap, h]
  rfl

theorem trap_procs_of_ne (cfg : PageConfig) (t : Trap) (s : Hart) {t' : Tile} (ht : t' ≠ cfg.csrs) :
    (trap cfg t s).2.procs t' = s.procs t' := by
  obtain ⟨c, mode, mstatus, e, -, h⟩ := trapCheckMxdeleg_eq cfg (s.csr cfg medelegCsr) t s
  rw [trap, h]
  exact trapProcs_of_ne cfg c t s ht

end Mlogv32.Cpu
