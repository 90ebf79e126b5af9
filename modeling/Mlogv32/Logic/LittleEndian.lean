import Mathlib

/-!
# Little-endian byte memory

A memory maps addresses to bytes. A number of `n` bytes at `a` has its lowest byte at `a`.
-/

namespace Mlogv32.Logic

abbrev Memory := Int → BitVec 8

namespace Memory

/-- The number in the `n` bytes from `a` on. -/
def read (m : Memory) (a : Int) : Nat → Nat
  | 0 => 0
  | n + 1 => (m a).toNat + 256 * m.read (a + 1) n

/-- Byte `i` of a number. -/
def byte (v i : Nat) : BitVec 8 := BitVec.ofNat 8 (v / 256 ^ i)

/-- The memory with the low `n` bytes of `v` at `a`. -/
def write (m : Memory) (a : Int) (n v : Nat) : Memory := fun x =>
  if a ≤ x ∧ x < a + n then byte v (x - a).toNat else m x

theorem byte_succ (v i : Nat) : byte v (i + 1) = byte (v / 256) i := by
  rw [byte, byte, Nat.div_div_eq_div_mul, pow_succ']

theorem byte_div (v j i : Nat) : byte (v / 256 ^ j) i = byte v (j + i) := by
  rw [byte, byte, Nat.div_div_eq_div_mul, pow_add]

theorem byte_eq_byte {v w i j : Nat} (h : v / 256 ^ i % 256 = w / 256 ^ j % 256) :
    byte v i = byte w j := by
  rw [byte, byte, ← BitVec.toNat_inj, BitVec.toNat_ofNat, BitVec.toNat_ofNat]
  exact h

/-- The bytes of a number read back its low part. -/
theorem read_of_bytes {m : Memory} {a : Int} {n v : Nat} (h : ∀ i < n, m (a + i) = byte v i) :
    m.read a n = v % 256 ^ n := by
  induction n generalizing a v with
  | zero => simp [read, Nat.mod_one]
  | succ n ih =>
      have hfirst := h 0 (by omega)
      have hrest : m.read (a + 1) n = v / 256 % 256 ^ n := ih fun i hi => by
        rw [← byte_succ, ← h (i + 1) (by omega)]
        push_cast
        ring_nf
      rw [read, hrest, pow_succ', Nat.mod_mul]
      simp only [Nat.cast_zero, add_zero, byte, pow_zero, Nat.div_one] at hfirst
      rw [hfirst, BitVec.toNat_ofNat]

theorem read_lt (m : Memory) (a : Int) (n : Nat) : m.read a n < 256 ^ n := by
  induction n generalizing a with
  | zero => simp [read]
  | succ n ih =>
      have := ih (a + 1)
      have := (m a).isLt
      rw [read, pow_succ]
      omega

end Memory

end Mlogv32.Logic
