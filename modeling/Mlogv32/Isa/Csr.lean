import Mathlib.Logic.Function.Basic
import Mlogv32.Isa.Encoding
import Mlogv32.Mlog.Bits

/-!
# CSR instructions

What CSRRW, CSRRS, CSRRC and their immediate forms do to the CSRs of a hart. sstatus, sie, sip and
the unprivileged counters are views: they have no value of their own.
-/

namespace Mlogv32.Isa
open Mlog

/-- The operand: the value of rs1, or the number in its field. -/
def CsrOp.operand (op : CsrOp) (field rs1 : Int) : Int :=
  match op with
  | .csrrw | .csrrs | .csrrc => rs1
  | .csrrwi | .csrrsi | .csrrci => field

/-- The new value for the old one, before the mask. -/
def CsrOp.modify (op : CsrOp) (x old : Int) : Int :=
  match op with
  | .csrrw | .csrrwi => x
  | .csrrs | .csrrsi => opOr old x
  | .csrrc | .csrrci => opAnd old (opNot x)

def CsrOp.writes (op : CsrOp) (field : Int) : Bool :=
  match op with
  | .csrrw | .csrrwi => true
  | _ => decide (field ≠ 0)

namespace Csr

def sstatus : Nat := 0x100
def sie : Nat := 0x104
def scounteren : Nat := 0x106
def sip : Nat := 0x144
def stimecmp : Nat := 0x14d
def stimecmph : Nat := 0x15d
def satp : Nat := 0x180
def mstatus : Nat := 0x300
def misa : Nat := 0x301
def mideleg : Nat := 0x303
def mie : Nat := 0x304
def mcounteren : Nat := 0x306
def mip : Nat := 0x344
def mcycle : Nat := 0xb00
def minstret : Nat := 0xb02
def mcycleh : Nat := 0xb80
def minstreth : Nat := 0xb82
def cycle : Nat := 0xc00
def instret : Nat := 0xc02
def cycleh : Nat := 0xc80
def instreth : Nat := 0xc82

/-- The values of the CSRs that have one. -/
abbrev State := Nat → Int

/-- The CSRs of an implementation, those of them that read as zero, and the bits that a write can
set. -/
structure Table where
  listed : Nat → Bool
  zero : Nat → Bool
  mask : Nat → Int

/-! ## Values -/

/-- The CSR that holds the value of a CSR. -/
def source (n : Nat) : Nat :=
  if n = sstatus then mstatus
  else if n = sie then mie
  else if n = sip then mip
  else if n = cycle then mcycle
  else if n = cycleh then mcycleh
  else if n = instret then minstret
  else if n = instreth then minstreth
  else n

def read (t : Table) (c : State) (n : Nat) : Int :=
  if t.zero n then 0
  else if n = sstatus then opAnd (c mstatus) (t.mask sstatus)
  else if n = sie ∨ n = sip then opAnd (c (source n)) (c mideleg)
  else c (source n)

/-- `x` in the bits of the mask, and `old` in the others. -/
def merge (old mask x : Int) : Int := opOr (opAnd old (opNot mask)) (opAnd x mask)

/-- The interrupts that mie enables. -/
def enableMask : Int := 0b00000000000000000000101010100010

/-- The reserved mode 2 in MPP becomes 0. -/
def legalize (mstatus : Int) : Int :=
  if opAnd mstatus 0b1100000000000 = 0b1000000000000 then opAnd mstatus (opNot 0b1100000000000)
  else mstatus

/-- The value that a write of `x`, which is masked, leaves in the source of `n`. -/
def stored (t : Table) (c : State) (n : Nat) (x : Int) : Int :=
  if n = mstatus then legalize x
  else if n = mie then opAnd x enableMask
  else if n = sstatus ∨ n = mip then merge (c (source n)) (t.mask n) x
  else if n = sie ∨ n = sip then merge (c (source n)) (c mideleg) x
  else x

/-- misa and the CSRs that read as zero keep their values. -/
def write (t : Table) (c : State) (n : Nat) (x : Int) : State :=
  if t.zero n ∨ n = misa then c else Function.update c (source n) (stored t c n x)

/-- The retired instruction is counted. -/
def retire (c : State) : State :=
  if c minstret + 1 < 2 ^ 32 then Function.update c minstret (c minstret + 1)
  else Function.update (Function.update c minstret 0) minstreth (c minstreth + 1)

/-! ## Access -/

/-- The bit of mcounteren and scounteren that controls a CSR. stimecmp has the bit of time. -/
def counterBit (n : Nat) : Option Nat :=
  if n / 32 = 0x60 ∨ n / 32 = 0x64 then some (n % 32)
  else if n = stimecmp ∨ n = stimecmph then some 1
  else none

def counterEnabled (mode : Int) (c : State) (k : Nat) : Bool :=
  decide (mode = 3) || bit (c mcounteren) k && (decide (mode = 1) || bit (c scounteren) k)

def counterDenied (mode : Int) (c : State) (n : Nat) : Bool :=
  match counterBit n with
  | some k => !counterEnabled mode c k
  | none => false

/-- TVM traps the accesses of S-mode to satp. -/
def satpDenied (mode : Int) (c : State) (n : Nat) : Bool :=
  decide (n = satp) && decide (mode = 1) && bit (c mstatus) 20

def illegal (t : Table) (mode : Int) (c : State) (n : Nat) (writes : Bool) : Bool :=
  decide (mode < (n / 256 % 4 : Nat)) || !t.listed n || writes && decide (n / 1024 = 3) ||
    counterDenied mode c n ||
    satpDenied mode c n

/-- The value for rd and the CSRs after the instruction, or nothing if it is illegal. A write of
minstret or minstreth takes effect after the instruction is counted. -/
def execute (t : Table) (mode : Int) (op : CsrOp) (field rs1 : Int) (n : Nat) (c : State) :
    Option (Int × State) :=
  if illegal t mode c n (op.writes field) then none
  else
    let old := read t c n
    let x := opAnd (op.modify (op.operand field rs1) old) (t.mask n)
    some (old,
      if op.writes field = false then retire c
      else if n = minstret ∨ n = minstreth then write t c n x
      else retire (write t c n x))

end Csr

end Mlogv32.Isa
