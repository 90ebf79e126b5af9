import Mlogv32.Cpu.Lemmas.Privilege

/-!
# The privilege state of a run
-/

namespace Mlogv32.Cpu
open Mlog Logic Isa

/-- In every run whose stores go to mapped addresses and store words, the privilege mode, mstatus,
mie and mideleg hold legal values, and the effective privilege mode is the one that mstatus gives. -/
theorem reaches_privilegeOk (cfg : Config) {m : Machine} (h : Reaches cfg (StoresOk cfg) m) :
    PrivilegeOk cfg m.hart :=
  h.privilegeOk.2

/-- Over a handler of `csrrsi x0, sstatus, 2` and `sret`: medeleg and stvec for the ECALL of U-mode,
`sw x2, 0(x2)` to RAM, and `mret` to `ecall` in U-mode. -/
def delegatedEcall : List Nat :=
  [0x00c0006f, 0x10016073, 0x10200073, 0x10000093, 0x30209073, 0x10525073,
    0x80000137, 0x00212023, 0x02c00193, 0x34119073, 0x30200073, 0x00000073]

/-- The run of `delegatedEcall` to the return from the handler, in which another worker takes over. -/
def delegatedEvents : List Event := List.replicate 33 .step ++ .handOff :: List.replicate 8 .step

/-- The hart of `delegatedEcall` after SRET. -/
@[irreducible] def delegatedMachine : Machine :=
  (Machine.start (smallBuild (romOfWords delegatedEcall)) fun _ _ => 0).run
    (smallBuild (romOfWords delegatedEcall))
    delegatedEvents

theorem reaches_privilegeOk_delegatedEcall :
    delegatedMachine.hart.privilegeMode = 0 ∧
      delegatedMachine.hart.csr (smallBuild (romOfWords delegatedEcall)) sepcCsr =
        delegatedMachine.hart.pc ∧
      PrivilegeOk (smallBuild (romOfWords delegatedEcall)) delegatedMachine.hart := by
  have hstart : Reaches (smallBuild (romOfWords delegatedEcall))
    (StoresOk (smallBuild (romOfWords delegatedEcall)))
      (Machine.start (smallBuild (romOfWords delegatedEcall)) fun _ _ => 0) := .init ⟨_, rfl⟩
  have hreach : Reaches (smallBuild (romOfWords delegatedEcall))
    (StoresOk (smallBuild (romOfWords delegatedEcall)))
      delegatedMachine := by
    unfold delegatedMachine
    exact hstart.events delegatedEvents (by decide +kernel)
  exact ⟨by decide +kernel, by decide +kernel, reaches_privilegeOk _ hreach⟩

/-- `lui x1, 0x80aa5` and `sw x1, -0x3f4(x1)`, to the entry of mideleg in CSRS. -/
def swMideleg : List Nat := [0x80aa50b7, 0xc010a623]

/-- A store above RAM sets bits of mideleg that are not interrupts. -/
theorem swMideleg_breaks_privilegeOk :
    ∃ m, m = (Machine.start (smallBuild (romOfWords swMideleg)) fun _ _ => 0).run
      (smallBuild (romOfWords swMideleg))
        (List.replicate 8 .step) ∧
      m.point = .main ∧ ¬PrivilegeOk (smallBuild (romOfWords swMideleg)) m.hart := by
  refine ⟨_, rfl, by decide +kernel, fun h => ?_⟩
  have hmideleg : ¬Within interruptMask
    (((Machine.start (smallBuild (romOfWords swMideleg)) fun _ _ => 0).run
      (smallBuild (romOfWords swMideleg)) (List.replicate 8 .step)).hart.csr
        (smallBuild (romOfWords swMideleg))
      midelegCsr) := by decide +kernel
  exact hmideleg h.mideleg

end Mlogv32.Cpu
