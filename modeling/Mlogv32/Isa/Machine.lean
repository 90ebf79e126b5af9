import Mlogv32.Isa.Alu
import Mlogv32.Isa.Memory

/-!
# A hart in machine mode

The instructions of RV32IMA on a platform with ROM and RAM, without interrupts. `Step` has no step
from a state where the instruction would trap, or where it goes beyond the integer instructions, the
atomics and the fences.
-/

namespace Mlogv32.Isa
open Logic

/-- The physical memory. ROM starts at address 0. -/
structure Platform where
  rom : Memory
  romSize : Int
  ramStart : Int
  ramEnd : Int

def Platform.InRom (p : Platform) (a : Int) (n : Nat) : Prop := 0 ≤ a ∧ a + n ≤ p.romSize

def Platform.InRam (p : Platform) (a : Int) (n : Nat) : Prop := p.ramStart ≤ a ∧ a + n ≤ p.ramEnd

instance (p : Platform) (a : Int) (n : Nat) : Decidable (p.InRom a n) :=
  inferInstanceAs (Decidable (_ ∧ _))

instance (p : Platform) (a : Int) (n : Nat) : Decidable (p.InRam a n) :=
  inferInstanceAs (Decidable (_ ∧ _))

/-- The registers, RAM, and the number of the instructions that were executed. Register 0 is never
written. -/
structure State where
  pc : Word
  registers : Reg → Word
  memory : MemState
  instret : Nat

/-- After a reset. -/
def State.initial (bytes : Memory) : State where
  pc := 0
  registers _ := 0
  memory := { bytes := bytes, reservation := none }
  instret := 0

namespace State

def set (t : State) (rd : Reg) (v : Word) : State :=
  { t with registers := fun r => if rd ≠ 0 ∧ r = rd then v else t.registers r }

theorem set_zero (t : State) (v : Word) : t.set 0 v = t := by
  simp [set]

def next (t : State) : State := { t with pc := t.pc + 4 }

def retire (t : State) : State := { t with instret := t.instret + 1 }

/-- A jump, which traps if the target is misaligned. -/
def goto (t : State) (target : Word) : Option State :=
  if target.toNat % 4 = 0 then some { t with pc := target } else none

/-- The number in `n` bytes of ROM or RAM. -/
def read (p : Platform) (t : State) (a : Word) (n : Nat) : Option Nat :=
  if p.InRom a.toNat n then some (p.rom.read a.toNat n)
  else if p.InRam a.toNat n then some (t.memory.bytes.read a.toNat n)
  else none

/-- A load, which traps if the address is misaligned, or outside of ROM and RAM. -/
def load (p : Platform) (t : State) (op : LoadOp) (rd : Reg) (a : Word) : Option State :=
  if a.toNat % op.bytes = 0 then (t.read p a op.bytes).map fun v =>
    (t.set rd (op.extend v)).next else none

/-- The number of bytes that a store or an atomic touches. -/
def bytes : MemOp → Nat
  | .store op => op.bytes
  | _ => 4

/-- A store or an atomic, which traps if the address is misaligned, or outside of RAM. -/
def access (p : Platform) (t : State) (op : MemOp) (rd : Reg) (a v : Word) : Option State :=
  if a.toNat % bytes op = 0 ∧ p.InRam a.toNat (bytes op) then
    let r := t.memory.access a.toNat v op
    some { (r.1.elim t (t.set rd)).next with memory := r.2 }
  else none

/-- The state after an instruction that does not trap. -/
def execute (p : Platform) (t : State) : Instr → Option State
  | .jal rd imm => (t.set rd (t.pc + 4)).goto (t.pc + (imm ++ 0#1).signExtend 32)
  | .jalr rd rs1 imm => (t.set rd (t.pc + 4)).goto ((t.registers rs1 + imm.signExtend 32) &&& 0xfffffffe)
  | .branch op rs1 rs2 imm =>
      if op.holds (t.registers rs1) (t.registers rs2) then t.goto (t.pc + (imm ++ 0#1).signExtend 32)
      else some t.next
  | .load op rd rs1 imm => t.load p op rd (t.registers rs1 + imm.signExtend 32)
  | .store op rs1 rs2 imm =>
      t.access p (.store op) 0 (t.registers rs1 + imm.signExtend 32) (t.registers rs2)
  | .lr _ rd rs1 => t.access p .lr rd (t.registers rs1) 0
  | .sc _ rd rs1 rs2 => t.access p .sc rd (t.registers rs1) (t.registers rs2)
  | .amo op _ rd rs1 rs2 => t.access p (.amo op) rd (t.registers rs1) (t.registers rs2)
  | .fence .. | .fenceI .. | .wfi | .sfenceVma .. | .mlogsys .. => some t.next
  | .ecall | .ebreak | .sret | .mret | .csr .. => none
  | i =>
      match i.rd, i.result t.pc (i.rs1.elim 0 t.registers) (i.rs2.elim 0 t.registers) with
      | some rd, some v => some (t.set rd v).next
      | _, _ => none

end State

/-- The instruction at pc. -/
def State.Fetches (p : Platform) (t : State) (i : Instr) : Prop :=
  t.pc.toNat % 4 = 0 ∧ t.read p t.pc 4 = some i.encode.toNat

/-- The instruction at pc is executed. -/
def Step (p : Platform) (t u : State) : Prop :=
  ∃ i v, t.Fetches p i ∧ t.execute p i = some v ∧ u = v.retire

end Mlogv32.Isa
