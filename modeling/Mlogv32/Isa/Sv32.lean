import Mathlib

/-!
# Sv32 address translation

The translation algorithm of the privileged architecture for Sv32 with Svade, on page-table entries
as 32-bit words. The bits D, A and U of a PTE that is not a leaf are ignored.

A translation is a `Walk`: it ends with an address or a fault, or reads a word of physical memory
and goes on. So it says nothing about the memory it reads.
-/

namespace Mlogv32.Isa.Sv32

inductive Access where
  | fetch | load | store
  deriving DecidableEq, Repr

/-- The effective privilege mode of a translated access. -/
inductive Privilege where
  | user | supervisor
  deriving DecidableEq, Repr

inductive Fault where
  | page | access
  deriving DecidableEq, Repr

inductive Walk where
  | done (address : BitVec 32)
  | fault (f : Fault)
  | read (address : Nat) (next : BitVec 32 → Walk)

/-! ## Page-table entries -/

abbrev Pte := BitVec 32

namespace Pte

def v (pte : Pte) : Bool := pte.getLsbD 0
def r (pte : Pte) : Bool := pte.getLsbD 1
def w (pte : Pte) : Bool := pte.getLsbD 2
def x (pte : Pte) : Bool := pte.getLsbD 3
def u (pte : Pte) : Bool := pte.getLsbD 4
def a (pte : Pte) : Bool := pte.getLsbD 6
def d (pte : Pte) : Bool := pte.getLsbD 7

def ppn (pte : Pte) : BitVec 22 := pte.extractLsb' 10 22
def ppn0 (pte : Pte) : BitVec 10 := pte.extractLsb' 10 10
def ppn1 (pte : Pte) : BitVec 12 := pte.extractLsb' 20 12

end Pte

/-! ## The algorithm -/

/-- Fields of satp and mstatus. -/
def mode (satp : BitVec 32) : Bool := satp.getLsbD 31
def root (satp : BitVec 32) : BitVec 22 := satp.extractLsb' 0 22
def sum (mstatus : BitVec 32) : Bool := mstatus.getLsbD 18
def mxr (mstatus : BitVec 32) : Bool := mstatus.getLsbD 19

/-- The part of the virtual address that indexes the table of level `i`. -/
def vpn (va : BitVec 32) (i : Nat) : BitVec 10 := va.extractLsb' (12 + 10 * i) 10

/-- The U bit allows the access: U-mode needs a user page, and S-mode may only load from and store
to one, if SUM is set. -/
def userOk (mstatus : BitVec 32) (p : Privilege) (access : Access) (pte : Pte) : Bool :=
  match p with
  | .user => pte.u
  | .supervisor => !pte.u || (access != .fetch && sum mstatus)

/-- The bits R, W and X allow the access. -/
def permissionOk (mstatus : BitVec 32) (access : Access) (pte : Pte) : Bool :=
  match access with
  | .fetch => pte.x
  | .load => pte.r || (mxr mstatus && pte.x)
  | .store => pte.w

/-- The bits A and D are set where the access would set them. -/
def accessedOk (access : Access) (pte : Pte) : Bool := pte.a && (access != .store || pte.d)

/-- The physical address of a leaf PTE at level `i`, which has 34 bits. -/
def leafAddress (va : BitVec 32) (i : Nat) (pte : Pte) : BitVec 34 :=
  if i = 0 then pte.ppn ++ va.extractLsb' 0 12 else pte.ppn1 ++ va.extractLsb' 0 22

/-- Steps 5 to 8, for a leaf PTE at level `i`. -/
def leaf (mstatus : BitVec 32) (p : Privilege) (access : Access) (va : BitVec 32) (i : Nat) (pte : Pte) :
    Walk :=
  if !userOk mstatus p access pte || !permissionOk mstatus access pte then .fault .page
  else if i ≠ 0 ∧ pte.ppn0 ≠ 0 then .fault .page
  else if !accessedOk access pte then .fault .page
  else if (leafAddress va i pte).toNat < 2 ^ 32 then .done ((leafAddress va i pte).setWidth 32)
  else .fault .access

/-- Steps 3 and 4: a PTE that is not valid, a leaf, or a pointer to the next table. -/
def level (mstatus : BitVec 32) (p : Privilege) (access : Access) (va : BitVec 32) (i : Nat)
    (next : BitVec 22 → Walk) (pte : Pte) : Walk :=
  if !pte.v || (!pte.r && pte.w) then .fault .page
  else if pte.r || pte.x then leaf mstatus p access va i pte
  else next pte.ppn

/-- Step 2: the walk from level `i` with the table at page `table`. -/
def walk (mstatus : BitVec 32) (p : Privilege) (access : Access) (va : BitVec 32) :
    Nat → BitVec 22 → Walk
  | 0, table =>
      .read (table.toNat * 4096 + (vpn va 0).toNat * 4)
        (level mstatus p access va 0 fun _ => .fault .page)
  | i + 1, table =>
      .read (table.toNat * 4096 + (vpn va (i + 1)).toNat * 4)
        (level mstatus p access va (i + 1) (walk mstatus p access va i))

def translate (satp mstatus : BitVec 32) (p : Privilege) (access : Access) (va : BitVec 32) : Walk :=
  if mode satp then walk mstatus p access va 1 (root satp) else .done va

end Mlogv32.Isa.Sv32
