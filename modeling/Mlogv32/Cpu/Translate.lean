import Mlogv32.Cpu.Hart

/-!
# Address translation

`translate_virtual_address`. Its `mcause` is the access fault of the original access (1, 5 or 7),
and `mtval` is the virtual address. `nonlocal2` is `(i + 1) * 10` for level `i` of the walk.
-/

namespace Mlogv32.Cpu
open Mlog

/-- The access fault of an access becomes its page fault: 1 → 12, 5 → 13, 7 → 15. -/
def pageFault (trap : Trap) : Trap :=
  { trap with mcause := max (trap.mcause + 8) 12 }

/-- The indices of `valid_indices`, on the bits `a00xwrv` of a PTE. -/
def validPte (i : Int) : Bool := i ∈ [1, 65, 67, 71, 73, 75, 79]

/-- Character `i` of `_88__2:44`, the PTE bits that an access needs one of. -/
def pteMask (i : Int) : Int :=
  ([95, 56, 56, 95, 95, 50, 58, 52, 52] : List Int).getD i.toNat 0

/-- Step 5: the U bit against the privilege mode. -/
def step5PageFault (s : Hart) (pte mcause : Int) : Bool :=
  let uPriv := opOr (opAnd pte 0b10000) s.effectivePrivilegeMode
  let sum := opAnd s.csrMstatus 0b1000000000000000000
  uPriv = 0 || ((mcause = 1 || sum = 0) && uPriv = 0b10001)

/-- Step 5: the bits R, W and X against the access type. -/
def step5Mask (s : Hart) (pte mcause : Int) : Int :=
  let mxr := opAnd (opShr s.csrMstatus 19) 0b1
  opAnd (opAnd pte 0b10001110) (pteMask (mcause + mxr))

/-- Steps 5 to 8, for a leaf PTE. -/
def translateLeaf (pte nonlocal2 : Int) (trap : Trap) : Op Int := do
  let s ← get
  if step5PageFault s pte trap.mcause then throw (pageFault trap)
  if step5Mask s pte trap.mcause = 0 then throw (pageFault trap)
  -- step 6: a misaligned superpage
  if nonlocal2 ≠ 10 ∧ opAnd pte 0xffc00 ≠ 0 then throw (pageFault trap)
  -- step 7: Svade, the A bit was checked in step 3
  if trap.mcause = 7 ∧ opAnd pte 0b10001110 < 0b10000000 then throw (pageFault trap)
  -- step 8
  let result := opShl pte 2
  if result > 0xffffffff then throw trap
  if nonlocal2 > 10 then
    return opOr (opAnd trap.mtval 0x3fffff) (opAnd result 0xffc00000)
  else
    return opOr (opAnd trap.mtval 0xfff) (opAnd result 0xfffff000)

/-- Steps 2 to 4 at level `i`, with the table at `a`. `next` goes on with the table that the PTE
points to. -/
def translateLevel (cfg : PageConfig) (trap : Trap) (i : Nat) (a : Int) (next : Int → Op Int) :
    Op Int := do
  let nonlocal2 : Int := (i + 1) * 10
  let address := opAnd (opShr trap.mtval nonlocal2) 0b111111111100 + a
  let pte ← loadWord cfg address trap
  if !validPte (opAnd pte 0b1001111) then throw (pageFault trap)
  if opAnd pte 0b1010 ≠ 0 then translateLeaf pte nonlocal2 trap
  else next (opShl (opAnd pte 0xfffffc00) 2)

/-- The walk from level `i`. -/
def translateStep2 (cfg : PageConfig) (trap : Trap) : Nat → Int → Op Int
  | 0, a => translateLevel cfg trap 0 a fun _ => throw (pageFault trap)
  | i + 1, a => translateLevel cfg trap (i + 1) a (translateStep2 cfg trap i)

/-- The number of satp, stvec and the other CSRs that the worker names. -/
def satpCsr : Nat := 0x180

def translateVirtualAddress (cfg : PageConfig) (trap : Trap) : Op Int := do
  let satp := (← get).csr cfg satpCsr
  if satp < 0x80000000 then return trap.mtval
  translateStep2 cfg trap 1 (opAnd satp 0x3fffff * 4096)

end Mlogv32.Cpu
