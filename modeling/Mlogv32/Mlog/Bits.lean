import Mlogv32.Mlog.Arith

/-!
# Bits of mlog numbers

The bitwise operations of mlog, bit by bit, for tests of flags and masks in a number.
-/

namespace Mlogv32.Mlog

/-- Bit `i` of the `long` of a number. -/
def bit (a : Int) (i : Nat) : Bool := (long a).getLsbD i

/-! ## Operations -/

theorem long_opAnd (a b : Int) : long (opAnd a b) = long a &&& long b := BitVec.ofInt_toInt

theorem long_opOr (a b : Int) : long (opOr a b) = long a ||| long b := BitVec.ofInt_toInt

theorem long_opNot (a : Int) : long (opNot a) = ~~~long a := BitVec.ofInt_toInt

@[simp] theorem bit_opAnd (a b : Int) (i : Nat) : bit (opAnd a b) i = (bit a i && bit b i) := by
  simp [bit, long_opAnd]

@[simp] theorem bit_opOr (a b : Int) (i : Nat) : bit (opOr a b) i = (bit a i || bit b i) := by
  simp [bit, long_opOr]

theorem bit_opNot (a : Int) {i : Nat} (hi : i < 64) : bit (opNot a) i = !bit a i := by
  simp [bit, long_opNot, hi]

theorem bit_of_le {a : Int} {i : Nat} (hi : 64 ≤ i) : bit a i = false :=
  BitVec.getLsbD_of_ge _ _ hi

theorem bit_two_pow {k : Nat} (hk : k < 64) (i : Nat) : bit (2 ^ k) i = decide (i = k) := by
  have h : long (2 ^ k) = BitVec.twoPow 64 k := by
    apply BitVec.eq_of_toNat_eq
    have hlt : 2 ^ k < 2 ^ 64 := Nat.pow_lt_pow_right (by decide) hk
    rw [show (2 : Int) ^ k = ((2 ^ k : Nat) : Int) by push_cast; rfl, long_natCast hlt,
      BitVec.toNat_twoPow, Nat.mod_eq_of_lt hlt]
  rw [bit, h, BitVec.getLsbD_twoPow]
  by_cases hik : i = k
  · simp [hik, hk]
  · simp [hik, Ne.symm hik]

/-- Bits outside a mask do not matter. -/
theorem opAnd_opOr_of_disjoint {b c : Int} (h : opAnd b c = 0) (a : Int) :
    opAnd (opOr a b) c = opAnd a c := by
  have h0 : long b &&& long c = 0#64 := BitVec.eq_of_toInt_eq h
  rw [opAnd, long_opOr, BitVec.and_comm, BitVec.and_or_distrib_left, BitVec.and_comm _ (long b), h0,
    BitVec.or_zero, BitVec.and_comm, opAnd]

/-- The bits above a number that is not negative. -/
theorem bit_of_lt {a : Int} {k i : Nat} (h0 : 0 ≤ a) (h : a < 2 ^ k) (hi : k ≤ i) : bit a i = false :=
  long_getLsbD_eq_false h0 h hi

/-! ## Numbers with the same bits -/

theorem long_ext {a b : Int} (h : ∀ i < 64, bit a i = bit b i) : long a = long b :=
  BitVec.eq_of_getLsbD_eq h

theorem opAnd_eq_zero {a b : Int} : opAnd a b = 0 ↔ ∀ i < 64, (bit a i && bit b i) = false := by
  constructor
  · intro h i _
    rw [← bit_opAnd, h]
    simp [bit, long]
  · intro h
    have hzero : long (opAnd a b) = 0#64 := by
      apply BitVec.eq_of_getLsbD_eq
      intro i hi
      rw [BitVec.getLsbD_zero]
      exact (bit_opAnd a b i).trans (h i hi)
    rw [long_opAnd] at hzero
    rw [opAnd, hzero]
    rfl

/-- Only the bits of the mask matter. -/
theorem opAnd_congr {a b mask : Int} (h : ∀ i < 64, bit mask i = true → bit a i = bit b i) :
    opAnd a mask = opAnd b mask := by
  have hlong : long (opAnd a mask) = long (opAnd b mask) := by
    apply long_ext
    intro i hi
    rw [bit_opAnd, bit_opAnd]
    cases hmask : bit mask i with
    | true => rw [h i hi hmask]
    | false => rw [Bool.and_false, Bool.and_false]
  rw [long_opAnd, long_opAnd] at hlong
  rw [opAnd, opAnd, hlong]

/-! ## Tests of one bit -/

theorem opAnd_two_pow (a : Int) {k : Nat} (hk : k < 63) :
    opAnd a (2 ^ k) = if bit a k then 2 ^ k else 0 := by
  have hlt : (2 : Int) ^ k < 2 ^ 63 := pow_lt_pow_right₀ (by decide) hk
  have hval : (long a &&& long (2 ^ k)).toInt = if bit a k then (2 : Int) ^ k else 0 := by
    split
    · rename_i hbit
      have h : long a &&& long (2 ^ k) = long (2 ^ k) := by
        rw [← long_opAnd]
        apply long_ext
        intro i _
        rw [bit_opAnd, bit_two_pow (by omega)]
        by_cases hik : i = k
        · simp [hik, hbit]
        · simp [hik]
      have hpos : (0 : Int) < 2 ^ k := by positivity
      rw [h, long_toInt (by omega) hlt]
    · rename_i hbit
      have h : opAnd a (2 ^ k) = 0 := by
        rw [opAnd_eq_zero]
        intro i _
        rw [bit_two_pow (by omega)]
        by_cases hik : i = k
        · simp [hik, hbit]
        · simp [hik]
      exact h
  exact hval

theorem opAnd_two_pow_eq_zero {a : Int} {k : Nat} (hk : k < 63) :
    opAnd a (2 ^ k) = 0 ↔ bit a k = false := by
  rw [opAnd_two_pow a hk]
  have hpos : (2 : Int) ^ k ≠ 0 := by positivity
  split
  · rename_i h
    simp [h]
  · rename_i h
    simp [h]

/-- A mask of two bits. -/
theorem opAnd_two_pow_add (a : Int) {i j : Nat} (hij : i < j) (hj : j < 63) :
    opAnd a (2 ^ i + 2 ^ j) = (if bit a i then 2 ^ i else 0) + if bit a j then 2 ^ j else 0 := by
  have hlt : (2 : Int) ^ j ≤ 2 ^ 62 := pow_le_pow_right₀ (by decide) (by omega)
  have hlt' : (2 : Int) ^ i < 2 ^ j := pow_lt_pow_right₀ (by decide) hij
  have hpos : (0 : Int) < 2 ^ i := by positivity
  have hdvd : (2 : Int) ^ j ∣ 2 ^ j := dvd_refl _
  have hmask : (2 : Int) ^ i + 2 ^ j = opOr (2 ^ i) (2 ^ j) :=
    (opOr_add j (by omega) hpos.le hlt' hdvd (by omega) (by omega)).symm
  have hsplit : opAnd a (opOr (2 ^ i) (2 ^ j)) = opOr (opAnd a (2 ^ i)) (opAnd a (2 ^ j)) := by
    rw [opAnd, long_opOr, BitVec.and_or_distrib_left, ← long_opAnd, ← long_opAnd]
    rfl
  rw [hmask, hsplit, opAnd_two_pow a (by omega), opAnd_two_pow a hj]
  refine opOr_add j (by omega) ?_ ?_ ?_ ?_ ?_ <;> split <;> (try split) <;>
    first | omega | exact hdvd | exact dvd_zero _

theorem bit_opShr (a : Int) {k : Nat} (hk : k < 64) {i : Nat} (hi : i + k < 64) :
    bit (opShr a k) i = bit a (i + k) := by
  have hmod : ((k : Int) % 64).toNat = k := by omega
  simp only [bit, opShr, hmod, long, BitVec.ofInt_toInt]
  rw [BitVec.getLsbD_sshiftRight]
  have h1 : ¬64 ≤ i := by omega
  have h2 : k + i < 64 := by omega
  rw [if_pos h2, decide_eq_false h1, Bool.not_false, Bool.true_and, Nat.add_comm]

theorem bit_opShl (a : Int) {k : Nat} (hk : k < 64) {i : Nat} (hi : i < 64) :
    bit (opShl a k) i = (decide (k ≤ i) && bit a (i - k)) := by
  have hmod : ((k : Int) % 64).toNat = k := by omega
  simp only [bit, opShl, hmod, long, BitVec.ofInt_toInt]
  rw [BitVec.getLsbD_shiftLeft]
  by_cases h : k ≤ i
  · simp [hi, h]
  · simp [h, Nat.lt_of_not_le h]

/-- Bit `k`, shifted down to bit 0. -/
theorem opAnd_opShr_one (a : Int) {k : Nat} (hk : k < 64) :
    opAnd (opShr a k) 1 = if bit a k then 1 else 0 := by
  have h := opAnd_two_pow (opShr a k) (k := 0) (by decide)
  rw [bit_opShr a hk (by omega), Nat.zero_add] at h
  exact h

/-- A field of two bits. -/
theorem opAnd_opShr_three (a : Int) {k : Nat} (hk : k + 1 < 64) :
    opAnd (opShr a k) 3 = (if bit a k then 1 else 0) + if bit a (k + 1) then 2 else 0 := by
  have h := opAnd_two_pow_add (opShr a k) (i := 0) (j := 1) (by decide) (by decide)
  rw [bit_opShr a (by omega) (by omega), bit_opShr a (by omega) (by omega),
    Nat.zero_add, Nat.add_comm 1 k] at h
  exact h

/-! ## Numbers inside a mask -/

/-- The number has no bit outside the mask. -/
def Within (mask a : Int) : Prop := opAnd a mask = a

instance (mask a : Int) : Decidable (Within mask a) := inferInstanceAs (Decidable (_ = _))

section

variable {mask a b : Int}

theorem within_opAnd (a mask : Int) : Within mask (opAnd a mask) := opAnd_idem a mask

theorem Within.opAnd (h : Within mask a) (b : Int) : Within mask (opAnd a b) := by
  rw [Within, opAnd_right_comm, h]

theorem Within.opOr (ha : Within mask a) (hb : Within mask b) : Within mask (opOr a b) := by
  have hdistrib : Mlog.opAnd (Mlog.opOr a b) mask = Mlog.opOr (Mlog.opAnd a mask)
      (Mlog.opAnd b mask) := by
    simp only [Mlog.opAnd, Mlog.opOr, long, BitVec.ofInt_toInt]
    rw [BitVec.and_or_distrib_right]
  rw [Within, hdistrib, ha, hb]

/-- A bit outside the mask. -/
theorem Within.bit_eq_false (h : Within mask a) {i : Nat} (hi : bit mask i = false) :
    bit a i = false := by
  rw [← h, bit_opAnd, hi, Bool.and_false]

theorem within_ite {c : Prop} [Decidable c] (ha : Within mask a) (hb : Within mask b) :
    Within mask (if c then a else b) := by
  split
  · exact ha
  · exact hb

end

end Mlogv32.Mlog
