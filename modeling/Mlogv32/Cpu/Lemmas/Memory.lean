import Mlogv32.Cpu.Lemmas.Cells
import Mlogv32.Cpu.Lemmas.Encoding
import Mlogv32.Cpu.Lemmas.Store
import Mlogv32.Isa.Memory

/-!
# RAM as a byte memory

The bytes that RAM holds, and what each step of a load or a store does to them.
-/

namespace Mlogv32.Cpu
open Mlog Logic

/-! ## Byte order -/

/-- The number with the given bytes, from the lowest. -/
def ofBytes (b0 b1 b2 b3 : Int) : Int := b0 + b1 * 2 ^ 8 + b2 * 2 ^ 16 + b3 * 2 ^ 24

theorem exists_ofBytes {v : Int} (h0 : 0 ≤ v) (h : v < 2 ^ 32) :
    ∃ b0 b1 b2 b3 : Int, (0 ≤ b0 ∧ b0 < 2 ^ 8) ∧ (0 ≤ b1 ∧ b1 < 2 ^ 8) ∧ (0 ≤ b2 ∧ b2 < 2 ^ 8) ∧
      (0 ≤ b3 ∧ b3 < 2 ^ 8) ∧ v = ofBytes b0 b1 b2 b3 := by
  refine ⟨v % 2 ^ 8, v / 2 ^ 8 % 2 ^ 8, v / 2 ^ 16 % 2 ^ 8, v / 2 ^ 24, ?_⟩
  unfold ofBytes
  omega

theorem swapEndianness_ofBytes {b0 b1 b2 b3 : Int} (h0 : 0 ≤ b0 ∧ b0 < 2 ^ 8) (h1 : 0 ≤ b1 ∧ b1 < 2 ^ 8)
    (h2 : 0 ≤ b2 ∧ b2 < 2 ^ 8) (h3 : 0 ≤ b3 ∧ b3 < 2 ^ 8) :
    swapEndianness (ofBytes b0 b1 b2 b3) = ofBytes b3 b2 b1 b0 := by
  unfold swapEndianness ofBytes
  have e0 : opShr (b0 + b1 * 2 ^ 8 + b2 * 2 ^ 16 + b3 * 2 ^ 24) 24 = b3 :=
    (opShr_eq _ 24 (by decide) (by omega) (by omega)).trans (by omega)
  have e1 : opShl (b0 + b1 * 2 ^ 8 + b2 * 2 ^ 16 + b3 * 2 ^ 24) 8 =
      (b0 + b1 * 2 ^ 8 + b2 * 2 ^ 16 + b3 * 2 ^ 24) * 2 ^ 8 :=
        opShl_eq _ 8 (by decide) (by omega) (by omega)
  have e2 : opShr (b0 + b1 * 2 ^ 8 + b2 * 2 ^ 16 + b3 * 2 ^ 24) 8 = b1 + b2 * 2 ^ 8 + b3 * 2 ^ 16 :=
    (opShr_eq _ 8 (by decide) (by omega) (by omega)).trans (by omega)
  have e3 : opShl (b0 + b1 * 2 ^ 8 + b2 * 2 ^ 16 + b3 * 2 ^ 24) 24 =
      (b0 + b1 * 2 ^ 8 + b2 * 2 ^ 16 + b3 * 2 ^ 24) * 2 ^ 24 :=
        opShl_eq _ 24 (by decide) (by omega) (by omega)
  have m0 : opAnd b3 0xff = b3 := (opAnd_mask _ 0 8 (by decide) (by decide)).trans (by omega)
  have m1 : opAnd ((b0 + b1 * 2 ^ 8 + b2 * 2 ^ 16 + b3 * 2 ^ 24) * 2 ^ 8) 0xff0000 = b1 * 2 ^ 16 := by
    rw [opAnd_mask _ 16 8 (by decide) (by decide),
      ediv_emod_of_eq (b2 + b3 * 2 ^ 8) b1 (b0 * 2 ^ 8) 16 8 (by ring) (by omega) h1]
  have m2 : opAnd (b1 + b2 * 2 ^ 8 + b3 * 2 ^ 16) 0xff00 = b2 * 2 ^ 8 := by
    rw [opAnd_mask _ 8 8 (by decide) (by decide), ediv_emod_of_eq b3 b2 b1 8 8 (by ring) h1 h2]
  have m3 : opAnd ((b0 + b1 * 2 ^ 8 + b2 * 2 ^ 16 + b3 * 2 ^ 24) * 2 ^ 24) 0xff000000 = b0 * 2 ^ 24 := by
    rw [opAnd_mask _ 24 8 (by decide) (by decide),
      ediv_emod_of_eq (b1 + b2 * 2 ^ 8 + b3 * 2 ^ 16) b0 0 24 8 (by ring) (by decide) h0]
  simp only [e0, e1, e2, e3, m0, m1, m2, m3]
  rw [opOr_right_comm b3, opOr_mul_add b2 8 rfl (by decide) h3.1 h3.2 (by omega) (by omega),
    opOr_mul_add b1 16 rfl (by decide) (by omega) (by omega) (by omega) (by omega),
    opOr_mul_add b0 24 rfl (by decide) (by omega) (by omega) (by omega) (by omega)]

theorem swapEndianness_swapEndianness {v : Int} (h0 : 0 ≤ v) (h : v < 2 ^ 32) :
    swapEndianness (swapEndianness v) = v := by
  obtain ⟨b0, b1, b2, b3, h0, h1, h2, h3, hv⟩ := exists_ofBytes h0 h
  rw [hv, swapEndianness_ofBytes h0 h1 h2 h3, swapEndianness_ofBytes h3 h2 h1 h0]

/-- Only the low 32 bits are stored. -/
theorem swapEndianness_emod (v : Int) : swapEndianness v = swapEndianness (v % 2 ^ 32) := by
  have hlow : v % 2 ^ 32 = opAnd v 0xffffffff := (opAnd_low v 32 (by decide)).symm
  have hbit {i : Nat} (hi : i < 32) : bit v i = bit (v % 2 ^ 32) i := by
    have hmask : ∀ j < 32, bit 0xffffffff j = true := by decide
    rw [hlow, bit_opAnd, hmask i hi, Bool.and_true]
  have hshr {k : Nat} {mask : Int} (hk : k < 64) (hmask : ∀ i < 64, bit mask i = true → i + k < 32) :
      opAnd (opShr v k) mask = opAnd (opShr (v % 2 ^ 32) k) mask := by
    refine opAnd_congr fun i hi h => ?_
    have hlt := hmask i hi h
    rw [bit_opShr v hk (by omega), bit_opShr _ hk (by omega), hbit hlt]
  have hshl {k : Nat} {mask : Int} (hk : k < 64) (hmask : ∀ i < 64, bit mask i = true → i < 32) :
      opAnd (opShl v k) mask = opAnd (opShl (v % 2 ^ 32) k) mask := by
    refine opAnd_congr fun i hi h => ?_
    have hlt := hmask i hi h
    rw [bit_opShl v hk hi, bit_opShl _ hk hi, hbit (i := i - k) (by omega)]
  have h0 := @hshr 24 0xff (by decide) (by decide)
  have h1 := @hshl 8 0xff0000 (by decide) (by decide)
  have h2 := @hshr 8 0xff00 (by decide) (by decide)
  have h3 := @hshl 24 0xff000000 (by decide) (by decide)
  push_cast at h0 h1 h2 h3
  rw [swapEndianness, swapEndianness, h0, h1, h2, h3]
  rfl

theorem swapEndianness_twice (v : Int) : swapEndianness (swapEndianness v) = v % 2 ^ 32 := by
  rw [swapEndianness_emod v]
  exact swapEndianness_swapEndianness (Int.emod_nonneg v (by decide)) (Int.emod_lt_of_pos v (by decide))

/-! ## Bytes of RAM -/

def InRam (cfg : PageConfig) (a : Int) : Prop := ramStart ≤ a ∧ a < cfg.ramEnd

instance (cfg : PageConfig) (a : Int) : Decidable (InRam cfg a) := inferInstanceAs (Decidable (_ ∧ _))

/-- The bytes that RAM holds. Addresses outside RAM count as 0. -/
def ramBytes (cfg : PageConfig) (procs : Procs) : Memory := fun a =>
  if InRam cfg a then Memory.byte (loadRamWordUnchecked cfg procs a).toNat (a % 4).toNat else 0

theorem loadRamWordUnchecked_eq (cfg : PageConfig) (procs : Procs) (a : Int) :
    loadRamWordUnchecked cfg procs a = swapEndianness (cell cfg procs (a - ramStart)).toNum := rfl

theorem cell_congr (cfg : PageConfig) (procs : Procs) {a b : Int} (ha : 0 ≤ a) (hb : 0 ≤ b)
    (h : a / 4 = b / 4) :
    cell cfg procs a = cell cfg procs b := by
  unfold cell
  rw [accessRamRaw_eq cfg ha, accessRamRaw_eq cfg hb, h]

theorem ramBytes_eq (cfg : PageConfig) (procs : Procs) {a b : Int} (ha : InRam cfg a)
    (hb : b / 4 = a / 4) :
    ramBytes cfg procs b = Memory.byte (loadRamWordUnchecked cfg procs a).toNat (b % 4).toNat := by
  have hramEnd : cfg.ramEnd % 4 = 0 := by
    have := cfg.ramSize_aligned
    unfold PageConfig.ramEnd ramStart
    omega
  unfold InRam ramStart at ha
  have hb' : InRam cfg b := by
    unfold InRam ramStart
    omega
  rw [ramBytes, if_pos hb', loadRamWordUnchecked_eq, loadRamWordUnchecked_eq,
    cell_congr cfg procs (a := b - ramStart) (b := a - ramStart)] <;>
  · unfold InRam at hb'
    unfold ramStart at *
    omega

theorem read_ramBytes (cfg : PageConfig) (procs : Procs) {a : Int} {n : Nat} (ha : InRam cfg a)
    (hn : a % 4 + n ≤ 4) :
    (ramBytes cfg procs).read a n = (loadRamWordUnchecked cfg procs a).toNat / 256 ^
      (a % 4).toNat % 256 ^ n := by
  apply Memory.read_of_bytes
  intro i hi
  rw [ramBytes_eq cfg procs ha (by omega), Memory.byte_div]
  congr 1
  omega

/-! ## Writes of RAM words -/

/-- The state after `store_ram_word_unchecked`. -/
def storedRam (cfg : PageConfig) (s : Hart) (address value : Int) : Hart :=
  let s := { s with procs := writeCell cfg s.procs (address - ramStart) (.num (swapEndianness value)) }
  if address < cfg.icacheEnd then decodeToIcache cfg s address value else s

theorem accessRam_congr (cfg : PageConfig) {a b : Int} (ha : ramStart ≤ a) (hb : ramStart ≤ b)
    (h : a / 4 = b / 4) :
    accessRam cfg a = accessRam cfg b := by
  unfold ramStart at ha hb
  unfold accessRam ramStart
  rw [accessRamRaw_eq cfg (by omega), accessRamRaw_eq cfg (by omega),
    show (a - 2147483648) / 4 = (b - 2147483648) / 4 by omega]

theorem storeRamWordUnchecked_eq (cfg : PageConfig) (address value rdId rd : Int) (s : Hart) :
    storeRamWordUnchecked cfg address value (accessRam cfg address) rdId rd s =
      .ok (.endInstructionWithRd rdId rd) (storedRam cfg s address value) := rfl

theorem icacheOffset_ram {cfg : PageConfig} {a : Int} (h : ramStart ≤ a) (h' : a < cfg.icacheEnd) :
    cfg.ramSize ≤ cfg.ramIcacheOffset + a ∧ cfg.ramIcacheOffset + a < cfg.ramSize + cfg.icacheSize := by
  have hrom := cfg.romSize_le
  unfold PageConfig.ramIcacheOffset
  unfold PageConfig.icacheEnd at h'
  unfold ramStart at *
  split at h' <;> omega

theorem cell_storedRam {cfg : PageConfig} {s : Hart} {address : Int} (value : Int)
    (ha : InRam cfg address) {b : Int} (hb : 0 ≤ b) (hb' : b < cfg.ramSize) :
    cell cfg (storedRam cfg s address value).procs b =
      if b / 4 = (address - ramStart) / 4 then .num (swapEndianness value) else cell cfg s.procs b := by
  have hcell := cell_writeCell cfg s.procs (.num (swapEndianness value)) (sub_nonneg.mpr ha.1) hb
  unfold storedRam
  split
  · rename_i hic
    have hoff := icacheOffset_ram ha.1 hic
    have hslot : icacheSlot cfg address = accessRamRaw cfg (cfg.ramIcacheOffset + address) := by
      rw [icacheSlot, if_neg (not_lt.mpr ha.1)]
    have hwrite (procs : Procs) (x : Value) :
      cell cfg (writeCell cfg procs (cfg.ramIcacheOffset + address) x) b =
        cell cfg procs b := by
      rw [cell_writeCell cfg procs x (by omega) hb, if_neg (by have := cfg.ramSize_aligned; omega)]
    simp only [decodeToIcache, hslot]
    exact (hwrite _ _).trans hcell
  · exact hcell

theorem loadRamWordUnchecked_stored {cfg : PageConfig} {s : Hart} {address : Int} (value : Int)
    (ha : InRam cfg address) {b : Int} (hb : InRam cfg b) :
    loadRamWordUnchecked cfg (storedRam cfg s address value).procs b =
      if b / 4 = address / 4 then value % 2 ^ 32 else loadRamWordUnchecked cfg s.procs b := by
  have hdiv : (b - ramStart) / 4 = (address - ramStart) / 4 ↔ b / 4 = address / 4 := by
    unfold ramStart
    omega
  unfold InRam PageConfig.ramEnd at hb
  rw [loadRamWordUnchecked_eq, loadRamWordUnchecked_eq, cell_storedRam value ha (by omega) (by omega)]
  simp only [hdiv]
  split
  · exact swapEndianness_twice value
  · rfl

theorem loadRamWordUnchecked_storedRam {cfg : PageConfig} {s : Hart} {address value : Int}
    (h0 : 0 ≤ value) (h : value < 2 ^ 32) (ha : InRam cfg address) {b : Int} (hb : InRam cfg b) :
    loadRamWordUnchecked cfg (storedRam cfg s address value).procs b =
      if b / 4 = address / 4 then value else loadRamWordUnchecked cfg s.procs b := by
  rw [loadRamWordUnchecked_stored value ha hb, Int.emod_eq_of_lt h0 h]

/-- The bytes of RAM after a word was stored, for a value that has the bytes of `v` at the stored
addresses and the old bytes elsewhere in the word. -/
theorem ramBytes_storedRam {cfg : PageConfig} {s : Hart} {address a value : Int}
    {n v : Nat} (h0 : 0 ≤ value)
    (h : value < 2 ^ 32) (ha : InRam cfg address) (hdiv : a / 4 = address / 4) (hn : a % 4 + n ≤ 4)
    (hbytes : ∀ i < 4, Memory.byte value.toNat i =
      if (a % 4).toNat ≤ i ∧ i < (a % 4).toNat + n then Memory.byte v (i - (a % 4).toNat)
      else Memory.byte (loadRamWordUnchecked cfg s.procs address).toNat i) :
    ramBytes cfg (storedRam cfg s address value).procs = (ramBytes cfg s.procs).write a n v := by
  funext x
  by_cases hx : x / 4 = address / 4
  · rw [ramBytes_eq cfg _ ha hx, loadRamWordUnchecked_storedRam h0 h ha ha, if_pos rfl,
      hbytes _ (by omega), Memory.write, ramBytes_eq cfg s.procs ha hx]
    by_cases hin : a ≤ x ∧ x < a + n
    · rw [if_pos hin, if_pos (by omega), show (x % 4).toNat - (a % 4).toNat = (x - a).toNat by omega]
    · rw [if_neg hin, if_neg (by omega)]
  · rw [Memory.write, if_neg (by omega), ramBytes, ramBytes]
    split
    · rename_i hxr
      rw [loadRamWordUnchecked_storedRam h0 h ha hxr, if_neg hx]
    · rfl

/-! ## Stores of 8 and 16 bits -/

/-- The word that a store of 8 or 16 bits writes back, as a sum. -/
theorem insertValue_field {w a v l : Int} (k m : Nat) (h0 : 0 ≤ w) (h : w < 2 ^ 32) (hv : 0 ≤ v)
    (hshift : opMod a 4 * 8 = k) (hlen : l = m) (hkm : k + m ≤ 32)
    (hdisj : long (2 ^ 32 - 1 - (2 ^ m - 1) * 2 ^ k) &&& long ((2 ^ m - 1) * 2 ^ k) = 0#64) :
    insertValue w a v l = w - w / 2 ^ k % 2 ^ m * 2 ^ k + v % 2 ^ m * 2 ^ k := by
  have hpos : (0 : Int) < 2 ^ m := by positivity
  have hpow : (2 : Int) ^ m * 2 ^ k ≤ 2 ^ 32 := by
    rw [← pow_add]
    exact pow_le_pow_right₀ (by decide) (by omega)
  have hfield {x : Int} (hx : 0 ≤ x) (hx' : x < 2 ^ m) : 0 ≤ x * 2 ^ k ∧ x * 2 ^ k ≤ 2 ^ 32 - 1 := by
    have hk : (0 : Int) < 2 ^ k := by positivity
    have hlt : x * 2 ^ k < 2 ^ m * 2 ^ k := mul_lt_mul_of_pos_right hx' hk
    exact ⟨by positivity, by omega⟩
  have hmask := hfield (x := 2 ^ m - 1) (by omega) (by omega)
  have hrs2 := hfield (x := v % 2 ^ m) (Int.emod_nonneg _ (by omega)) (Int.emod_lt_of_pos _ hpos)
  have hmod : opMod v (2 ^ m) = v % 2 ^ m := opMod_eq hv hpos
  simp only [insertValue, opPow, hshift, hlen, Int.toNat_natCast, hmod]
  rw [opShl_eq _ k (by omega) (by omega) (by omega), opShl_eq _ k (by omega) (by omega) (by omega),
    show (0xffffffff : Int) - (2 ^ m - 1) * 2 ^ k = 2 ^ 32 - 1 - (2 ^ m - 1) * 2 ^ k from rfl,
    opAnd_complement hdisj (by ring) (by omega) hmask.1 h0 h, opAnd_field w k m (by omega)]

theorem byte_insert_one {w v : Int} {o i : Nat} (h0 : 0 ≤ w) (h : w < 2 ^ 32) (hv : 0 ≤ v) (ho : o < 4)
    (hi : i < 4) :
    Memory.byte (w - w / 2 ^ (8 * o) % 2 ^ 8 * 2 ^ (8 * o) + v % 2 ^ 8 * 2 ^ (8 * o)).toNat i =
      if o ≤ i ∧ i < o + 1 then Memory.byte v.toNat (i - o) else Memory.byte w.toNat i := by
  interval_cases o <;> interval_cases i <;> apply Memory.byte_eq_byte <;> norm_num <;> omega

theorem byte_insert_two {w v : Int} {o i : Nat} (h0 : 0 ≤ w) (h : w < 2 ^ 32) (hv : 0 ≤ v)
    (ho : o = 0 ∨ o = 2) (hi : i < 4) :
    Memory.byte (w - w / 2 ^ (8 * o) % 2 ^ 16 * 2 ^ (8 * o) + v % 2 ^ 16 * 2 ^ (8 * o)).toNat i =
      if o ≤ i ∧ i < o + 2 then Memory.byte v.toNat (i - o) else Memory.byte w.toNat i := by
  rcases ho with rfl | rfl <;> interval_cases i <;> apply Memory.byte_eq_byte <;> norm_num <;> omega

theorem insertValue_bytes {w a v : Int} {n : Nat} (h0 : 0 ≤ w) (h : w < 2 ^ 32) (hv : 0 ≤ v)
    (ha : 0 ≤ a) (hn : n = 1 ∨ n = 2) (halign : a % n = 0) :
    (0 ≤ insertValue w a v (8 * n) ∧ insertValue w a v (8 * n) < 2 ^ 32) ∧
    ∀ i < 4, Memory.byte (insertValue w a v (8 * n)).toNat i =
      if (a % 4).toNat ≤ i ∧ i < (a % 4).toNat + n then Memory.byte v.toNat (i - (a % 4).toNat)
      else Memory.byte w.toNat i := by
  have hmod : opMod a 4 = a % 4 := opMod_eq ha (by decide)
  obtain ⟨o, ho, hlt⟩ : ∃ o : Nat, a % 4 = o ∧ o < 4 := ⟨(a % 4).toNat, by omega, by omega⟩
  have hshift : opMod a 4 * 8 = ((8 * o : Nat) : Int) := by rw [hmod, ho]; push_cast; ring
  rw [ho, Int.toNat_natCast]
  rcases hn with rfl | rfl
  · have hins := insertValue_field (l := 8 * (1 : Nat)) (8 * o) 8 h0 h hv hshift rfl (by omega)
      (by interval_cases o <;> decide)
    rw [hins]
    exact ⟨by interval_cases o <;> norm_num <;> omega, fun i hi => byte_insert_one h0 h hv hlt hi⟩
  · have ho' : o = 0 ∨ o = 2 := by omega
    have hins := insertValue_field (l := 8 * (2 : Nat)) (8 * o) 16 h0 h hv hshift rfl (by omega)
      (by rcases ho' with rfl | rfl <;> decide)
    rw [hins]
    exact ⟨by rcases ho' with rfl | rfl <;> norm_num <;> omega, fun i hi =>
      byte_insert_two h0 h hv ho' hi⟩

/-- The word that a store of `n` bytes writes back, whatever was loaded. -/
theorem insertValue_lt (w : Int) {a v : Int} {n : Nat} (hv : 0 ≤ v) (ha : 0 ≤ a) (hn : n = 1 ∨ n = 2)
    (halign : a % n = 0) : 0 ≤ insertValue w a v (8 * n) ∧ insertValue w a v (8 * n) < 2 ^ 32 := by
  have hmod : opMod a 4 = a % 4 := opMod_eq ha (by decide)
  obtain ⟨o, ho, hlt⟩ : ∃ o : Nat, a % 4 = o ∧ o < 4 := ⟨(a % 4).toNat, by omega, by omega⟩
  -- the mask takes bits of the word only
  have hmask : opAnd 0xffffffff (0xffffffff - opShl (opPow 2 (8 * n) - 1) (opMod a 4 * 8)) =
      0xffffffff - opShl (opPow 2 (8 * n) - 1) (opMod a 4 * 8) := by
    rw [hmod, ho]
    rcases hn with rfl | rfl
    · interval_cases o <;> decide
    · have ho' : o = 0 ∨ o = 2 := by omega
      rcases ho' with rfl | rfl <;> decide
  have heq : insertValue w a v (8 * n) = insertValue (opAnd w 0xffffffff) a v (8 * n) := by
    simp only [insertValue]
    rw [opAnd_assoc, hmask]
  have hlow := opAnd_lt (a := w) (b := 0xffffffff) (k := 32) (by decide) (by decide) (by decide)
  rw [heq]
  exact (insertValue_bytes hlow.1 hlow.2 hv ha hn halign).1

end Mlogv32.Cpu
