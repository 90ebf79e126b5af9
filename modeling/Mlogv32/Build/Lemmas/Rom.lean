import Mlogv32.Build.Lemmas.Memory
import Mlogv32.Logic.LittleEndian

/-!
# ROM words

A word of ROM is read from the characters of its four bytes. If one of them is missing, the word is
zero.
-/

namespace Mlogv32.Build
open Mlog Cpu Logic

variable {cfg : Config} {v : RomStrings} {data : List (Fin 256)}

/-- The bytes from address 0 on, with zeros behind them. -/
def dataMemory (data : List (Fin 256)) : Memory :=
  fun x => if 0 ≤ x then BitVec.ofNat 8 (data.getD x.toNat 0).val else 0

/-- The string of processor `k` of an image. -/
def chunk (data : List (Fin 256)) (k : Nat) : List Nat :=
  ((data.drop (16384 * k)).take 16384).map fun c => 174 + c.val

theorem dataMemory_toNat (data : List (Fin 256)) (n : Nat) :
    ((dataMemory data) n).toNat = (data.getD n 0).val := by
  have hlt := (data.getD n 0).isLt
  rw [dataMemory, if_pos (by omega), Int.toNat_natCast, BitVec.toNat_ofNat]
  omega

theorem chunk_getElem? {k i : Nat} (hi : i < 16384) :
    (chunk data k)[i]? = (data[16384 * k + i]?).map fun c => 174 + c.val := by
  rw [chunk, List.getElem?_map, List.getElem?_take_of_lt hi, List.getElem?_drop]

/-- The number that the CPU sees for a byte of an image. -/
def romCode (data : List (Fin 256)) (n : Nat) : Int :=
  if n < data.length then 174 + (data.getD n 0).val else 0

theorem romCode_range (data : List (Fin 256)) (n : Nat) : 0 ≤ romCode data n ∧ romCode data n < 430 := by
  have hlt := (data.getD n 0).isLt
  unfold romCode
  split_ifs <;> omega

theorem romChar_chunk {k i : Nat} (hv : v (cfg.tile k) = some (chunk data k)) (hi : i < 16384) :
    romChar (withRom cfg v) (cfg.tile k) i = romCode data (16384 * k + i) := by
  have hbyte : (withRom cfg v).rom (cfg.tile k) i = data[16384 * k + i]? := by
    change v.bytes (cfg.tile k) i = _
    rw [RomStrings.bytes, if_pos (by omega), hv, Option.bind_some, Int.toNat_natCast, chunk_getElem? hi]
    cases data[16384 * k + i]? with
    | none => rfl
    | some c =>
        have hc : Fin.ofNat 256 (174 + c.val - 174) = c := by
          rw [Nat.add_sub_cancel_left]
          exact Fin.ofNat_val_eq_self c
        rw [Option.map_some, Option.map_some, hc]
  rw [romChar, hbyte, romCode, List.getD_eq_getElem?_getD]
  by_cases h : 16384 * k + i < data.length
  · rw [if_pos h, List.getElem?_eq_getElem h]
    rfl
  · rw [if_neg h, List.getElem?_eq_none (not_lt.mp h)]

/-- The offset of the characters makes a word with a missing byte negative, which counts as zero. -/
theorem merge_romCode (n : Nat) :
    max (romCode data n + romCode data (n + 1) * 2 ^ 8 + romCode data (n + 2) * 2 ^ 16 +
      romCode data (n + 3) * 2 ^ 24 -
        174 * (1 + 2 ^ 8 + 2 ^ 16 + 2 ^ 24)) 0 =
      if n + 4 ≤ data.length then ((dataMemory data).read n 4 : Int) else 0 := by
  have hread : ((dataMemory data).read n 4 : Int) = (data.getD n 0).val + 256 *
    ((data.getD (n + 1) 0).val +
      256 * ((data.getD (n + 2) 0).val + 256 * (data.getD (n + 3) 0).val)) := by
    have h0 := dataMemory_toNat data n
    have h1 := dataMemory_toNat data (n + 1)
    have h2 := dataMemory_toNat data (n + 2)
    have h3 := dataMemory_toNat data (n + 3)
    push_cast [add_assoc] at h1 h2 h3
    simp only [Memory.read, add_assoc, one_add_one_eq_two, Int.reduceAdd, h0, h1, h2, h3]
    push_cast
    ring
  have h0 := (data.getD n 0).isLt
  have h1 := (data.getD (n + 1) 0).isLt
  have h2 := (data.getD (n + 2) 0).isLt
  have h3 := (data.getD (n + 3) 0).isLt
  rw [hread]
  unfold romCode
  split_ifs <;> omega

theorem loadRomWordUnchecked_chunk {x : Nat} (hx : x < 2 ^ 32)
    (hv : v (cfg.tile (x / 16384 : Nat)) = some (chunk data (x / 16384))) :
    loadRomWordUnchecked (withRom cfg v) x =
      if x / 4 * 4 + 4 ≤ data.length then ((dataMemory data).read (x / 4 * 4 : Nat) 4 : Int) else 0 := by
  have hindex : (x : Int) / 4 * 4 % 16384 = (x / 4 * 4 % 16384 : Nat) := by omega
  have htile : (withRom cfg v).tile ((x : Int) / 16384) = cfg.tile (x / 16384 : Nat) := rfl
  have hchar (j : Nat) (hj : j < 4) :
      romChar (withRom cfg v) (cfg.tile (x / 16384 : Nat)) ((x / 4 * 4 % 16384 : Nat) + (j : Int)) =
        romCode data (x / 4 * 4 + j) := by
    have hsum : 16384 * (x / 16384) + (x / 4 * 4 % 16384 + j) = x / 4 * 4 + j := by omega
    have h := romChar_chunk (i := x / 4 * 4 % 16384 + j) hv (by omega)
    rw [hsum, Nat.cast_add] at h
    exact h
  have hshl (n k : Nat) (hk : k ≤ 24) : opShl (romCode data n) k = romCode data n * 2 ^ k := by
    obtain ⟨h0, hlt⟩ := romCode_range data n
    have hpow : (2 : Int) ^ k ≤ 2 ^ 24 := pow_le_pow_right₀ (by decide) hk
    have hpos : (0 : Int) < 2 ^ k := by positivity
    have hle : romCode data n * 2 ^ k ≤ 430 * 2 ^ 24 := by gcongr
    exact opShl_eq _ k (by omega) (by nlinarith) (by omega)
  have h0 := hchar 0 (by decide)
  rw [Nat.cast_zero, add_zero, add_zero] at h0
  rw [loadRomWordUnchecked_eq (by omega) (by omega), htile, hindex, h0]
  have h1 := hchar 1 (by decide)
  have h2 := hchar 2 (by decide)
  have h3 := hchar 3 (by decide)
  have s1 := hshl (x / 4 * 4 + 1) 8 (by decide)
  have s2 := hshl (x / 4 * 4 + 2) 16 (by decide)
  have s3 := hshl (x / 4 * 4 + 3) 24 (by decide)
  push_cast at h1 h2 h3 s1 s2 s3 ⊢
  rw [h1, h2, h3, s1, s2, s3]
  exact_mod_cast merge_romCode (x / 4 * 4)

end Mlogv32.Build
