import Mlogv32.Cpu.Controller
import Mlogv32.Cpu.Lemmas.Translate

/-!
# Address translation

`translate_virtual_address` implements Sv32, for every access and every content of physical memory.
-/

namespace Mlogv32.Cpu
open Mlog Logic Isa.Sv32

/-- The result, the exception and the final state are those of the walk of the privileged
architecture, with `load_word` as the physical read. -/
theorem translateVirtualAddress_eq_translate (cfg : Config) (s : Hart) (satp mstatus va : BitVec 32)
    (p : Privilege) (access : Access) (hsatp : s.csr cfg satpCsr = satp.toNat)
    (hmstatus : s.csrMstatus = mstatus.toNat) (hmode : s.effectivePrivilegeMode = privilegeMode p) :
    translateVirtualAddress cfg { mcause := accessCause access, mtval := va.toNat } s =
      runWalk cfg access va (translate satp mstatus p access va) s :=
  translateVirtualAddress_translates ⟨hsatp, hmstatus, hmode⟩

/-- A supervisor that turns on translation with its root table at the start of RAM. -/
def supervisorHart : Hart :=
  { (Machine.powerOn (smallBuild fun _ _ => none) fun _ _ => 0).hart with
    effectivePrivilegeMode := 0b01
    procs := fun t i => if t = (9, 22) ∧ i = satpCsr then .num 0x80080000 else .null }

theorem translateVirtualAddress_supervisorHart :
    translateVirtualAddress (smallBuild fun _ _ => none)
      { mcause := 5, mtval := 0x1234 } supervisorHart =
      runWalk (smallBuild fun _ _ => none) .load 0x1234#32
        (translate 0x80080000#32 0#32 .supervisor .load 0x1234#32) supervisorHart :=
  translateVirtualAddress_eq_translate _ supervisorHart 0x80080000#32 0#32 0x1234#32 .supervisor .load
    (by decide) (by decide) (by decide)

end Mlogv32.Cpu
