import Mlogv32.Logic.Double

/-!
# Arithmetic of mlog

An mlog number is a double, and except for the times that the controller reads, every number of the
modelled programs is an integer that a double holds exactly. The bitwise operations convert their
operands to a Java `long`, so they are defined through 64-bit words. `null` takes part in an
operation as 0.
-/

namespace Mlogv32.Mlog

/-- The `long` that Java casts an integral double to. -/
def long (a : Int) : BitVec 64 := BitVec.ofInt 64 a

/-- The cast where the number may be past the range of a `long`, which gives the nearest bound. -/
def saturate (a : Int) : Int := max (-2 ^ 63) (min a (2 ^ 63 - 1))

def opAnd (a b : Int) : Int := (long a &&& long b).toInt

def opOr (a b : Int) : Int := (long a ||| long b).toInt

def opXor (a b : Int) : Int := (long a ^^^ long b).toInt

def opNot (a : Int) : Int := (~~~ long a).toInt

/-- `op shl`. Java uses the low six bits of the shift amount. -/
def opShl (a b : Int) : Int := (long a <<< (b % 64).toNat).toInt

/-- `op shr`, the arithmetic shift. -/
def opShr (a b : Int) : Int := ((long a).sshiftRight (b % 64).toNat).toInt

/-- `op idiv`: division rounded down. A division by zero is not a number and is kept as `null`. -/
def opIdiv (a b : Int) : Int := a.fdiv b

/-- `op mod`: Java's `%`, whose result has the sign of the dividend. -/
def opMod (a b : Int) : Int := if b = 0 then 0 else a.tmod b

/-- `op pow` with an integral result. -/
def opPow (a b : Int) : Int := a ^ b.toNat

/-- The result of a comparison stored by `op`. -/
def opBool (b : Bool) : Int := if b then 1 else 0

/-- The integers that a double holds exactly. -/
def Exact (a : Int) : Prop := -2 ^ 53 ≤ a ∧ a ≤ 2 ^ 53

instance (a : Int) : Decidable (Exact a) := inferInstanceAs (Decidable (_ ∧ _))

/-- The double nearest to an integer, with ties to an even significand of 53 bits. -/
def toDouble (a : Int) : Int :=
  let unit : Int := 2 ^ (Nat.log2 a.natAbs - 52)
  let quotient := a / unit
  let remainder := a % unit
  if 2 * remainder < unit ∨ (2 * remainder = unit ∧ quotient % 2 = 0) then quotient * unit
  else (quotient + 1) * unit

/-- The number that a variable holds for a result that is not negative. Infinity is stored as 0. -/
def number (x : ℚ) : ℚ := if Logic.double x < 2 ^ 1024 then Logic.double x else 0

/-! ## 64-bit words -/

theorem long_toNat (a : Int) : (long a).toNat = (a % 2 ^ 64).toNat := by
  simp [long, BitVec.toNat_ofInt]

theorem long_toInt {a : Int} (hlo : -2 ^ 63 ≤ a) (hhi : a < 2 ^ 63) : (long a).toInt = a := by
  rw [long, BitVec.toInt_ofInt, Int.bmod_eq_of_le] <;> omega

theorem long_natCast {n : Nat} (h : n < 2 ^ 64) : (long n).toNat = n := by
  rw [long_toNat]
  omega

theorem toInt_eq_toNat {x : BitVec 64} (h : x.toNat < 2 ^ 63) : x.toInt = x.toNat := by
  rw [BitVec.toInt_eq_toNat_cond]
  split
  · rfl
  · omega

/-! ## Masks -/

/-- A mask of the low `k` bits is a remainder, also for negative numbers. -/
theorem opAnd_low (a : Int) (k : Nat) (hk : k ≤ 63) : opAnd a (2 ^ k - 1) = a % 2 ^ k := by
  have hpow : (2 : Nat) ^ k ≤ 2 ^ 63 := Nat.pow_le_pow_right (by decide) hk
  have hpos : 0 < (2 : Nat) ^ k := Nat.two_pow_pos k
  have hmask : (long (2 ^ k - 1)).toNat = 2 ^ k - 1 := by
    have h : ((2 : Int) ^ k - 1) = ((2 ^ k - 1 : Nat) : Int) := by push_cast [hpos]; rfl
    rw [h, long_natCast (by omega)]
  have hval : (long a &&& long (2 ^ k - 1)).toNat = (a % 2 ^ 64).toNat % 2 ^ k := by
    rw [BitVec.toNat_and, hmask, Nat.and_two_pow_sub_one_eq_mod, long_toNat]
  have hlt : (a % 2 ^ 64).toNat % 2 ^ k < 2 ^ k := Nat.mod_lt _ hpos
  rw [opAnd, toInt_eq_toNat (by rw [hval]; omega), hval, Int.natCast_mod,
    Int.toNat_of_nonneg (Int.emod_nonneg _ (by decide)), Nat.cast_pow, Nat.cast_ofNat,
    Int.emod_emod_of_dvd]
  exact pow_dvd_pow 2 (by omega)

/-- A mask of `m` bits above the low `k` bits keeps that field in place. -/
theorem opAnd_field (a : Int) (k m : Nat) (h : k + m ≤ 63) :
    opAnd a ((2 ^ m - 1) * 2 ^ k) = a / 2 ^ k % 2 ^ m * 2 ^ k := by
  have hpow : (2 : Nat) ^ (k + m) ≤ 2 ^ 63 := Nat.pow_le_pow_right (by decide) h
  have hpk : 0 < (2 : Nat) ^ k := Nat.two_pow_pos k
  have hpm : 0 < (2 : Nat) ^ m := Nat.two_pow_pos m
  rw [pow_add] at hpow
  have hle : (2 ^ m - 1) * 2 ^ k ≤ (2 : Nat) ^ k * 2 ^ m := by
    rw [Nat.mul_comm ((2 : Nat) ^ k)]; exact Nat.mul_le_mul_right _ (by omega)
  have hmask : (long ((2 ^ m - 1) * 2 ^ k)).toNat = (2 ^ m - 1) <<< k := by
    have hcast : ((2 : Int) ^ m - 1) * 2 ^ k = (((2 ^ m - 1) * 2 ^ k : Nat) : Int) := by
      push_cast [hpm]; rfl
    rw [hcast, long_natCast (by omega), Nat.shiftLeft_eq]
  have hand : ∀ x : Nat, x &&& (2 ^ m - 1) <<< k = x / 2 ^ k % 2 ^ m * 2 ^ k := by
    intro x
    rw [← Nat.shiftRight_eq_div_pow, ← Nat.and_two_pow_sub_one_eq_mod, ← Nat.shiftLeft_eq]
    apply Nat.eq_of_testBit_eq
    intro i
    simp only [Nat.testBit_and, Nat.testBit_shiftLeft, Nat.testBit_shiftRight]
    by_cases hi : k ≤ i
    · simp [hi]
    · simp [hi]
  have hval : (long a &&& long ((2 ^ m - 1) * 2 ^ k)).toNat =
      (a % 2 ^ 64).toNat / 2 ^ k % 2 ^ m * 2 ^ k := by
    rw [BitVec.toNat_and, hmask, hand, long_toNat]
  have hlt : (a % 2 ^ 64).toNat / 2 ^ k % 2 ^ m * 2 ^ k < 2 ^ 63 := by
    have : (a % 2 ^ 64).toNat / 2 ^ k % 2 ^ m * 2 ^ k ≤ (2 ^ m - 1) * 2 ^ k :=
      Nat.mul_le_mul_right _ (by have := Nat.mod_lt ((a % 2 ^ 64).toNat / 2 ^ k) hpm; omega)
    have hlt' : (2 ^ m - 1) * 2 ^ k < (2 : Nat) ^ k * 2 ^ m := by
      rw [Nat.mul_comm ((2 : Nat) ^ k)]; exact Nat.mul_lt_mul_of_pos_right (by omega) hpk
    omega
  rw [opAnd, toInt_eq_toNat (by rw [hval]; exact hlt), hval]
  push_cast
  rw [Int.toNat_of_nonneg (Int.emod_nonneg _ (by decide))]
  congr 1
  have hkpos : (2 : Int) ^ k ≠ 0 := by positivity
  have hsplit : a = a % 18446744073709551616 +
      2 ^ k * (2 ^ m * (2 ^ (64 - k - m) * (a / 18446744073709551616))) := by
    have h64 : (18446744073709551616 : Int) = 2 ^ k * (2 ^ m * 2 ^ (64 - k - m)) := by
      rw [← pow_add, ← pow_add, show k + (m + (64 - k - m)) = 64 by omega]; norm_num
    calc a = a % 18446744073709551616 + 18446744073709551616 * (a / 18446744073709551616) :=
          (Int.emod_add_mul_ediv a _).symm
      _ = _ := by rw [show (18446744073709551616 : Int) * (a / 18446744073709551616) =
            (2 ^ k * (2 ^ m * 2 ^ (64 - k - m))) * (a / 18446744073709551616) by rw [← h64]]; ring
  conv_rhs => rw [hsplit]
  rw [Int.add_mul_ediv_left _ _ hkpos, Int.add_mul_emod_self_left]

/-- `opAnd_field` for a mask written as a numeral. -/
theorem opAnd_mask {b : Int} (a : Int) (k m : Nat) (hmask : b = (2 ^ m - 1) * 2 ^ k)
    (h : k + m ≤ 63) : opAnd a b = a / 2 ^ k % 2 ^ m * 2 ^ k := by
  rw [hmask, opAnd_field a k m h]

/-! ## Shifts -/

/-- A left shift that stays inside a `long` is a multiplication. -/
theorem opShl_eq (a : Int) (k : Nat) (hk : k < 64) (hlo : -2 ^ 63 ≤ a * 2 ^ k)
    (hhi : a * 2 ^ k < 2 ^ 63) : opShl a k = a * 2 ^ k := by
  have hmod : ((k : Int) % 64).toNat = k := by omega
  rw [opShl, hmod, BitVec.toInt_shiftLeft, Nat.shiftLeft_eq, long_toNat]
  push_cast
  rw [Int.toNat_of_nonneg (Int.emod_nonneg _ (by decide))]
  have hmul := Int.emod_mul_bmod a 18446744073709551616 (y := 2 ^ k)
  push_cast at hmul
  rw [hmul, Int.bmod_eq_of_le] <;> omega

/-- A right shift is a division rounded down. -/
theorem opShr_eq (a : Int) (k : Nat) (hk : k < 64) (hlo : -2 ^ 63 ≤ a) (hhi : a < 2 ^ 63) :
    opShr a k = a / 2 ^ k := by
  have hmod : ((k : Int) % 64).toNat = k := by omega
  rw [opShr, hmod, BitVec.toInt_sshiftRight, long_toInt hlo hhi, Int.shiftRight_eq_div_pow]
  simp

/-! ## Disjoint bits -/

theorem long_getLsbD_eq_false {a : Int} {k i : Nat} (ha : 0 ≤ a) (ha' : a < 2 ^ k) (hi : k ≤ i) :
    (long a).getLsbD i = false := by
  obtain ⟨n, rfl⟩ := Int.eq_ofNat_of_zero_le ha
  by_cases h64 : i < 64
  · have hn : n < 2 ^ i := by
      have h1 : n < 2 ^ k := by exact_mod_cast ha'
      exact lt_of_lt_of_le h1 (Nat.pow_le_pow_right (by decide) hi)
    have h2 : n < 2 ^ 64 := lt_of_lt_of_le hn (Nat.pow_le_pow_right (by decide) (by omega))
    rw [← BitVec.testBit_toNat, long_natCast h2]
    exact Nat.testBit_lt_two_pow hn
  · exact BitVec.getLsbD_of_ge _ _ (by omega)

theorem long_getLsbD_of_dvd {b : Int} {k i : Nat} (hk : k ≤ 64) (hb : (2 : Int) ^ k ∣ b) (hi : i < k) :
    (long b).getLsbD i = false := by
  have hdvd : (2 : Int) ^ k ∣ b % 2 ^ 64 := by
    rw [Int.emod_def]
    exact Int.dvd_sub hb (Dvd.dvd.mul_right (pow_dvd_pow 2 hk) _)
  have hnat : 2 ^ k ∣ (b % 2 ^ 64).toNat := by
    have hcast : ((2 ^ k : Nat) : Int) ∣ ((b % 2 ^ 64).toNat : Int) := by
      rw [Int.toNat_of_nonneg (Int.emod_nonneg _ (by decide))]
      exact_mod_cast hdvd
    exact_mod_cast hcast
  obtain ⟨c, hc⟩ := hnat
  rw [← BitVec.testBit_toNat, long_toNat, hc, Nat.mul_comm, Nat.testBit_mul_two_pow]
  simp [hi]

/-- An `or` of disjoint bits is a sum. -/
theorem opOr_add {a b : Int} (k : Nat) (hk : k ≤ 63) (ha : 0 ≤ a) (ha' : a < 2 ^ k)
    (hb : (2 : Int) ^ k ∣ b) (hlo : -2 ^ 63 ≤ b) (hhi : a + b < 2 ^ 63) : opOr a b = a + b := by
  have hand : long a &&& long b = 0#64 := by
    apply BitVec.eq_of_getLsbD_eq
    intro i _
    rw [BitVec.getLsbD_and, BitVec.getLsbD_zero]
    rcases Nat.lt_or_ge i k with hi | hi
    · rw [long_getLsbD_of_dvd (by omega) hb hi, Bool.and_false]
    · rw [long_getLsbD_eq_false ha ha' hi, Bool.false_and]
  have hpow : (2 : Int) ^ k ≤ 2 ^ 63 := pow_le_pow_right₀ (by decide) hk
  rw [opOr, ← BitVec.add_eq_or_of_and_eq_zero _ _ hand, BitVec.toInt_add,
    long_toInt (by omega) (by omega), long_toInt hlo (by omega), Int.bmod_eq_of_le] <;> omega

theorem opOr_mul_add {a c : Int} (b : Int) (k : Nat) (hc : c = 2 ^ k) (hk : k ≤ 63) (ha : 0 ≤ a)
    (ha' : a < c) (hlo : -2 ^ 63 ≤ b * c) (hhi : a + b * c < 2 ^ 63) : opOr a (b * c) = a + b * c :=
  opOr_add k hk ha (hc ▸ ha') ⟨b, by rw [hc, mul_comm]⟩ hlo hhi

theorem opOr_comm (a b : Int) : opOr a b = opOr b a := by
  rw [opOr, opOr, BitVec.or_comm]

theorem opOr_right_comm (a b c : Int) : opOr (opOr a b) c = opOr (opOr a c) b := by
  simp only [opOr, long, BitVec.ofInt_toInt]
  rw [BitVec.or_assoc, BitVec.or_assoc, BitVec.or_comm (BitVec.ofInt 64 b)]

theorem opAnd_comm (a b : Int) : opAnd a b = opAnd b a := by
  rw [opAnd, opAnd, BitVec.and_comm]

theorem opOr_idem (a b : Int) : opOr (opOr a b) b = opOr a b := by
  simp only [opOr, long, BitVec.ofInt_toInt]
  rw [BitVec.or_assoc, BitVec.or_self]

theorem opAnd_right_comm (a b c : Int) : opAnd (opAnd a b) c = opAnd (opAnd a c) b := by
  simp only [opAnd, long, BitVec.ofInt_toInt]
  rw [BitVec.and_assoc, BitVec.and_assoc, BitVec.and_comm (BitVec.ofInt 64 b)]

theorem opAnd_idem (a b : Int) : opAnd (opAnd a b) b = opAnd a b := by
  simp only [opAnd, long, BitVec.ofInt_toInt]
  rw [BitVec.and_assoc, BitVec.and_self]

theorem opAnd_opAnd_ne {a m : Int} (h : opAnd a m ≠ a) (m' : Int) : opAnd (opAnd a m) m' ≠ a := by
  intro heq
  apply h
  calc opAnd a m = opAnd (opAnd (opAnd a m) m') m := by rw [heq]
    _ = opAnd (opAnd a m) m' := by rw [opAnd_right_comm, opAnd_idem]
    _ = a := heq

theorem opAnd_assoc (a b c : Int) : opAnd (opAnd a b) c = opAnd a (opAnd b c) := by
  simp only [opAnd, long, BitVec.ofInt_toInt]
  rw [BitVec.and_assoc]

/-- Toggling bit `k` of a number of `k + 1` bits. -/
theorem opXor_top {a : Int} (k : Nat) (hk : k ≤ 61) (ha : 0 ≤ a) (ha' : a < 2 ^ (k + 1)) :
    opXor a (2 ^ k) = if a < 2 ^ k then a + 2 ^ k else a - 2 ^ k := by
  obtain ⟨n, rfl⟩ := Int.eq_ofNat_of_zero_le ha
  have hn : n < 2 ^ (k + 1) := by exact_mod_cast ha'
  have hpow : (2 : Nat) ^ (k + 1) ≤ 2 ^ 62 := Nat.pow_le_pow_right (by decide) (by omega)
  have hk2 : (2 : Nat) ^ (k + 1) = 2 * 2 ^ k := by rw [pow_succ]; ring
  have hcast : ((2 : Int) ^ k) = ((2 ^ k : Nat) : Int) := by push_cast; rfl
  have hadd : ∀ m : Nat, m < 2 ^ k → m ^^^ 2 ^ k = m + 2 ^ k := by
    intro m hm
    have hor := Nat.two_pow_add_eq_or_of_lt hm 1
    rw [Nat.mul_one] at hor
    rw [Nat.add_comm, hor]
    apply Nat.eq_of_testBit_eq
    intro i
    simp only [Nat.testBit_xor, Nat.testBit_or, Nat.testBit_two_pow]
    by_cases hi : k = i
    · subst hi; simp [Nat.testBit_lt_two_pow hm]
    · simp [hi]
  have hxor : n ^^^ 2 ^ k = if n < 2 ^ k then n + 2 ^ k else n - 2 ^ k := by
    split
    · exact hadd n ‹_›
    · have hm := hadd (n - 2 ^ k) (by omega)
      rw [Nat.sub_add_cancel (by omega)] at hm
      rw [← hm, Nat.xor_assoc, Nat.xor_self, Nat.xor_zero, hm]
  rw [opXor, toInt_eq_toNat] <;>
    rw [BitVec.toNat_xor, hcast, long_natCast (by omega), long_natCast (by omega), hxor]
  · split <;> split <;> omega
  · split <;> omega

/-- Toggling and subtracting the sign bit extends the sign. -/
theorem opXor_sub {a : Int} (k : Nat) (hk : k ≤ 61) (ha : 0 ≤ a) (ha' : a < 2 ^ (k + 1)) :
    opXor a (2 ^ k) - 2 ^ k = if a < 2 ^ k then a else a - 2 ^ (k + 1) := by
  rw [opXor_top k hk ha ha', pow_succ]
  split <;> ring

/-! ## Division -/

theorem opIdiv_eq (a : Int) {b : Int} (hb : 0 ≤ b) : opIdiv a b = a / b :=
  Int.fdiv_eq_ediv_of_nonneg a hb

theorem opMod_eq {a b : Int} (ha : 0 ≤ a) (hb : 0 < b) : opMod a b = a % b := by
  rw [opMod, if_neg (by omega), Int.tmod_eq_emod_of_nonneg ha]

theorem opMod_eq_zero {a b : Int} (hb : 0 < b) : opMod a b = 0 ↔ a % b = 0 := by
  rw [opMod, if_neg hb.ne', ← Int.dvd_iff_tmod_eq_zero, Int.dvd_iff_emod_eq_zero]

/-- The field of `m` bits above the low `k` bits of a number given by its parts. -/
theorem ediv_emod_of_eq {x : Int} (hi mid lo : Int) (k m : Nat) (h : x = (hi * 2 ^ m + mid) * 2 ^ k + lo)
    (hlo : 0 ≤ lo ∧ lo < 2 ^ k) (hmid : 0 ≤ mid ∧ mid < 2 ^ m) : x / 2 ^ k % 2 ^ m = mid := by
  have hpos : (2 : Int) ^ k ≠ 0 := by positivity
  have hdiv : x / 2 ^ k = mid + hi * 2 ^ m := by
    rw [h, add_comm, Int.add_mul_ediv_right _ _ hpos, Int.ediv_eq_zero_of_lt hlo.1 hlo.2]
    ring
  rw [hdiv, Int.add_mul_emod_self_right, Int.emod_eq_of_lt hmid.1 hmid.2]

/-! ## Doubles -/

theorem toDouble_of_exact {a : Int} (h : Exact a) : toDouble a = a := by
  obtain ⟨hlo, hhi⟩ := h
  have hcases : Nat.log2 a.natAbs ≤ 52 ∨ a.natAbs = 2 ^ 53 := by
    by_cases h0 : a.natAbs = 2 ^ 53
    · exact Or.inr h0
    · left
      have hlt : Nat.log2 a.natAbs < 53 := by
        by_cases hz : a.natAbs = 0
        · rw [hz]; decide
        · rw [Nat.log2_lt hz]; omega
      omega
  rcases hcases with hlog | habs
  · simp [toDouble, Nat.sub_eq_zero_of_le hlog]
  · have hlog : Nat.log2 a.natAbs - 52 = 1 := by rw [habs, Nat.log2_two_pow]
    have heven : a % 2 = 0 := by omega
    simp only [toDouble, hlog, pow_one, heven]
    norm_num
    omega

theorem number_nonneg {x : ℚ} (h : 0 ≤ x) : 0 ≤ number x := by
  unfold number
  split
  · exact Logic.double_nonneg h
  · exact le_rfl

/-! ## Words of 32 bits -/

theorem opAnd_word32 (x y : BitVec 32) : opAnd x.toNat y.toNat = (x &&& y).toNat := by
  have hval : (long x.toNat &&& long y.toNat).toNat = (x &&& y).toNat := by
    rw [BitVec.toNat_and, BitVec.toNat_and, long_natCast (by omega), long_natCast (by omega)]
  rw [opAnd, toInt_eq_toNat (by omega), hval]

theorem opOr_word32 (x y : BitVec 32) : opOr x.toNat y.toNat = (x ||| y).toNat := by
  have hval : (long x.toNat ||| long y.toNat).toNat = (x ||| y).toNat := by
    rw [BitVec.toNat_or, BitVec.toNat_or, long_natCast (by omega), long_natCast (by omega)]
  rw [opOr, toInt_eq_toNat (by omega), hval]

theorem opXor_word32 (x y : BitVec 32) : opXor x.toNat y.toNat = (x ^^^ y).toNat := by
  have hval : (long x.toNat ^^^ long y.toNat).toNat = (x ^^^ y).toNat := by
    rw [BitVec.toNat_xor, BitVec.toNat_xor, long_natCast (by omega), long_natCast (by omega)]
  rw [opXor, toInt_eq_toNat (by omega), hval]

/-! ## Ranges -/

/-- The result of a mask with a nonnegative mask lies below the mask. -/
theorem opAnd_le {a b : Int} (hb : 0 ≤ b) (hb' : b < 2 ^ 63) : 0 ≤ opAnd a b ∧ opAnd a b ≤ b := by
  obtain ⟨n, rfl⟩ := Int.eq_ofNat_of_zero_le hb
  have hle : (long a &&& long n).toNat ≤ n := by
    rw [BitVec.toNat_and, long_natCast (by omega)]
    exact Nat.and_le_right
  rw [opAnd, toInt_eq_toNat (by omega)]
  omega

theorem opAnd_lt {a b : Int} {k : Nat} (hk : k ≤ 63) (hb : 0 ≤ b) (hb' : b < 2 ^ k) :
    0 ≤ opAnd a b ∧ opAnd a b < 2 ^ k := by
  have hpow : (2 : Int) ^ k ≤ 2 ^ 63 := pow_le_pow_right₀ (by decide) hk
  have := opAnd_le (a := a) hb (by omega)
  omega

theorem opOr_lt {a b : Int} {k : Nat} (hk : k ≤ 63) (ha : 0 ≤ a) (ha' : a < 2 ^ k) (hb : 0 ≤ b)
    (hb' : b < 2 ^ k) : 0 ≤ opOr a b ∧ opOr a b < 2 ^ k := by
  obtain ⟨m, rfl⟩ := Int.eq_ofNat_of_zero_le ha
  obtain ⟨n, rfl⟩ := Int.eq_ofNat_of_zero_le hb
  have hm : m < 2 ^ k := by exact_mod_cast ha'
  have hn : n < 2 ^ k := by exact_mod_cast hb'
  have hpow : (2 : Nat) ^ k ≤ 2 ^ 63 := Nat.pow_le_pow_right (by decide) hk
  have hlt : (long m ||| long n).toNat < 2 ^ k := by
    rw [BitVec.toNat_or, long_natCast (by omega), long_natCast (by omega)]
    exact Nat.or_lt_two_pow hm hn
  rw [opOr, toInt_eq_toNat (by omega)]
  exact ⟨by omega, by exact_mod_cast hlt⟩

theorem opXor_lt {a b : Int} {k : Nat} (hk : k ≤ 63) (ha : 0 ≤ a) (ha' : a < 2 ^ k) (hb : 0 ≤ b)
    (hb' : b < 2 ^ k) : 0 ≤ opXor a b ∧ opXor a b < 2 ^ k := by
  obtain ⟨m, rfl⟩ := Int.eq_ofNat_of_zero_le ha
  obtain ⟨n, rfl⟩ := Int.eq_ofNat_of_zero_le hb
  have hm : m < 2 ^ k := by exact_mod_cast ha'
  have hn : n < 2 ^ k := by exact_mod_cast hb'
  have hpow : (2 : Nat) ^ k ≤ 2 ^ 63 := Nat.pow_le_pow_right (by decide) hk
  have hlt : (long m ^^^ long n).toNat < 2 ^ k := by
    rw [BitVec.toNat_xor, long_natCast (by omega), long_natCast (by omega)]
    exact Nat.xor_lt_two_pow hm hn
  rw [opXor, toInt_eq_toNat (by omega)]
  exact ⟨by omega, by exact_mod_cast hlt⟩

/-- A mask and its complement in a word split it. -/
theorem opAnd_complement {w mask keep : Int} (hdisj : long keep &&& long mask = 0#64)
    (hsum : keep + mask = 2 ^ 32 - 1) (hkeep : 0 ≤ keep) (hmask : 0 ≤ mask) (h0 : 0 ≤ w)
    (h : w < 2 ^ 32) :
    opAnd w keep = w - opAnd w mask := by
  have hor : long keep ||| long mask = long (2 ^ 32 - 1) := by
    rw [← BitVec.add_eq_or_of_and_eq_zero _ _ hdisj, ← hsum, long, long, long, BitVec.ofInt_add]
  have hand : (long w &&& long keep) &&& (long w &&& long mask) = 0#64 := by
    calc (long w &&& long keep) &&& (long w &&& long mask)
        = long w &&& long w &&& (long keep &&& long mask) := by ac_rfl
      _ = 0#64 := by rw [hdisj, BitVec.and_zero]
  have hadd : (long w &&& long keep) + (long w &&& long mask) = long w &&& long (2 ^ 32 - 1) := by
    rw [BitVec.add_eq_or_of_and_eq_zero _ _ hand, ← BitVec.and_or_distrib_left, hor]
  have hk := opAnd_le (a := w) hkeep (by omega)
  have hm := opAnd_le (a := w) hmask (by omega)
  have hw : opAnd w (2 ^ 32 - 1) = w := by
    rw [opAnd_low w 32 (by decide)]
    exact Int.emod_eq_of_lt h0 h
  have hsplit : opAnd w keep + opAnd w mask = opAnd w (2 ^ 32 - 1) := by
    have := congrArg BitVec.toInt hadd
    rw [BitVec.toInt_add] at this
    unfold opAnd at *
    rw [← this, Int.bmod_eq_of_le] <;> omega
  omega

end Mlogv32.Mlog
