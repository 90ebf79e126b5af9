import Mlogv32.Isa.Encoding
import Mlogv32.Logic.LittleEndian

/-!
# Memory instructions

The effect of the loads, stores and atomics of RV32IA on a byte memory and on the reservation of the
hart, at a physical address.
-/

namespace Mlogv32.Isa
open Logic

inductive MemOp where
  | load (op : LoadOp)
  | store (op : StoreOp)
  | lr
  | sc
  | amo (op : AmoOp)
  deriving DecidableEq, Repr

/-- The number of bytes that a load reads. -/
def LoadOp.bytes : LoadOp → Nat
  | .lb | .lbu => 1
  | .lh | .lhu => 2
  | .lw => 4

def LoadOp.signed : LoadOp → Bool
  | .lb | .lh => true
  | .lw | .lbu | .lhu => false

def StoreOp.bytes : StoreOp → Nat
  | .sb => 1
  | .sh => 2
  | .sw => 4

/-- The loaded number, extended to a register. -/
def LoadOp.extend (op : LoadOp) (v : Nat) : BitVec 32 :=
  match op with
  | .lb => (BitVec.ofNat 8 v).signExtend 32
  | .lh => (BitVec.ofNat 16 v).signExtend 32
  | .lw | .lbu | .lhu => BitVec.ofNat 32 v

def AmoOp.apply (op : AmoOp) (x y : BitVec 32) : BitVec 32 :=
  match op with
  | .amoadd => x + y
  | .amoswap => y
  | .amoxor => x ^^^ y
  | .amoor => x ||| y
  | .amoand => x &&& y
  | .amomin => if x.toInt ≤ y.toInt then x else y
  | .amomax => if x.toInt ≤ y.toInt then y else x
  | .amominu => if x.toNat ≤ y.toNat then x else y
  | .amomaxu => if x.toNat ≤ y.toNat then y else x

structure MemState where
  bytes : Memory
  reservation : Option Int

/-- The value that an access returns, if it writes a register, and the memory after it. `v` is the
value of rs2. -/
def MemState.access (m : MemState) (a : Int) (v : BitVec 32) : MemOp → Option (BitVec 32) × MemState
  | .load op => (some (op.extend (m.bytes.read a op.bytes)), m)
  | .store op => (none, { m with bytes := m.bytes.write a op.bytes v.toNat })
  | .lr => (some (BitVec.ofNat 32 (m.bytes.read a 4)), { m with reservation := some a })
  | .sc =>
      if m.reservation = some a then
        (some 0, { bytes := m.bytes.write a 4 v.toNat, reservation := none })
      else (some 1, { m with reservation := none })
  | .amo op =>
      let x := BitVec.ofNat 32 (m.bytes.read a 4)
      (some x, { m with bytes := m.bytes.write a 4 (op.apply x v).toNat })

end Mlogv32.Isa
