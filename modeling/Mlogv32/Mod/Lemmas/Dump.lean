import Mlogv32.Cpu.Lemmas.Access
import Mlogv32.Mod.ProcessorAccess

/-!
# The words of a dump

The sequence of RAM words goes on to the end of the last processor, and each word is written as the
bytes that the CPU loads.
-/

namespace Mlogv32.Mod
open Mlog Logic Cpu

variable {cfg : Config} {procs : Procs} {isRamProc : Tile → Bool}

/-! ## The sequence -/

/-- The size of the processors of RAM. -/
def ramTop (cfg : Config) : Int := (cfg.ramSize + 16383) / 16384 * 16384

/-- Every RAM processor is there, with its variables. -/
def RamPresent (cfg : Config) (isRamProc : Tile → Bool) : Prop :=
  ∀ offset : Int, 0 ≤ offset → offset < cfg.ramSize → isRamProc (accessRamRaw cfg offset).1

theorem getRamProc_eq (h : RamPresent cfg isRamProc) {offset : Int} (h0 : 0 ≤ offset)
    (hlt : offset < cfg.ramSize) :
    getRamProc cfg isRamProc (ramStart + offset) =
      some (cfg.tile (offset / 4 / 4096 + cfg.ramStartProc), (offset / 4 % 4096).toNat) := by
  have hw := cfg.memoryWidth_pos
  have hproc := cfg.ramStartProc_eq
  have hnonneg := cfg.ramStartProc_nonneg
  have hpresent := h offset h0 hlt
  rw [accessRamRaw_fst cfg h0] at hpresent
  have hindex : cfg.romSize / 16384 + offset / 4 / 4096 = offset / 4 / 4096 + cfg.ramStartProc := by
    omega
  have htile (i : Int) (hi : 0 ≤ i) :
      (cfg.memoryX + i % cfg.memoryWidth, cfg.memoryY + i / cfg.memoryWidth) = cfg.tile i := by
    rw [PageConfig.tile, procTile, opMod_eq hi (by omega), opIdiv_eq _ (by omega),
      add_comm cfg.memoryX, add_comm cfg.memoryY]
  rw [getRamProc, if_pos ⟨by omega, by unfold PageConfig.ramEnd; omega⟩, add_sub_cancel_left]
  dsimp only
  rw [hindex, htile _ (by omega), if_pos hpresent]

theorem map_range'_cell {offset : Int} (h0 : 0 ≤ offset) (h4 : offset % 4 = 0) :
    (List.range' (offset / 4 % 4096).toNat (4096 - (offset / 4 % 4096).toNat)).map
        (procs (cfg.tile (offset / 4 / 4096 + cfg.ramStartProc))) =
      (List.range (4096 - (offset / 4 % 4096).toNat)).map fun k : Nat =>
        cell cfg procs (offset + 4 * k) := by
  rw [List.range'_eq_map_range, List.map_map]
  refine List.map_congr_left fun k hk => ?_
  have hlt := List.mem_range.mp hk
  have hproc : (offset + 4 * k) / 4 / 4096 = offset / 4 / 4096 := by omega
  have hvar : ((offset + 4 * k) / 4 % 4096).toNat = (offset / 4 % 4096).toNat + k := by omega
  rw [cell, accessRamRaw_eq cfg (by omega), hproc, hvar]
  rfl

theorem ramWords_eq (h : RamPresent cfg isRamProc) {fuel : Nat} {offset : Int} (h0 : 0 ≤ offset)
    (h4 : offset % 4 = 0) (hfuel : ramTop cfg - offset ≤ 4 * (fuel : Int))
    (hend : offset < cfg.ramSize ∨ offset = ramTop cfg) :
    ramWords cfg procs isRamProc fuel (ramStart + offset) =
      (List.range ((ramTop cfg - offset) / 4).toNat).map fun k : Nat =>
        cell cfg procs (offset + 4 * k) := by
  induction fuel generalizing offset with
  | zero =>
      have hnone : ((ramTop cfg - offset) / 4).toNat = 0 := by omega
      rw [ramWords, hnone]
      rfl
  | succ fuel ih =>
      rw [ramWords]
      rcases hend with hlt | htop
      · rw [if_pos (by unfold PageConfig.ramEnd; omega), getRamProc_eq h h0 hlt]
        dsimp only
        rw [map_range'_cell h0 h4]
        generalize hcount : 4096 - (offset / 4 % 4096).toNat = n
        have hramTop : ramTop cfg = (cfg.ramSize + 16383) / 16384 * 16384 := rfl
        have hrest := @ih (offset + 4 * n) (by omega) (by omega) (by omega) (by omega)
        have hsplit : ((ramTop cfg - offset) / 4).toNat = n +
          ((ramTop cfg - (offset + 4 * n)) / 4).toNat := by omega
        rw [add_assoc, hrest, hsplit, List.range_add, List.map_append, List.map_map]
        congr 1
        refine List.map_congr_left fun k _ => ?_
        rw [Function.comp_apply]
        congr 1
        push_cast
        ring
      · have hnone : ((ramTop cfg - offset) / 4).toNat = 0 := by omega
        have hramEnd : ¬ramStart + offset < cfg.ramEnd := by
          unfold ramTop at htop
          unfold PageConfig.ramEnd
          omega
        rw [if_neg hramEnd, hnone]
        rfl

/-! ## Bytes -/

theorem wordBytes_length (word : Nat) : (wordBytes word).length = 4 := rfl

theorem wordBytes_getElem (word : Nat) {j : Nat} (hj : j < (wordBytes word).length) :
    (wordBytes word)[j].val = word / 256 ^ (3 - j) % 256 := by
  rw [wordBytes_length] at hj
  interval_cases j
  · rfl
  · rfl
  · rfl
  · simp [wordBytes]

theorem flatMap_getElem? {α β : Type*} {f : α → List β} {n : Nat} (hf : ∀ x, (f x).length = n)
    (l : List α) {k j : Nat} (hj : j < n) :
    (l.flatMap f)[n * k + j]? = l[k]?.bind fun x => (f x)[j]? := by
  induction l generalizing k with
  | nil => rfl
  | cons x l ih =>
      rw [List.flatMap_cons]
      cases k with
      | zero =>
          rw [Nat.mul_zero, Nat.zero_add, List.getElem?_append_left (by rw [hf]; exact hj)]
          rfl
      | succ k =>
          have hindex : n * (k + 1) + j = n + (n * k + j) := by ring
          rw [hindex, List.getElem?_append_right (by rw [hf]; omega), hf, Nat.add_sub_cancel_left, ih]
          rfl

theorem flatMap_length {α β : Type*} {f : α → List β} {n : Nat} (hf : ∀ x, (f x).length = n)
    (l : List α) :
    (l.flatMap f).length = n * l.length := by
  induction l with
  | nil => rfl
  | cons x l ih => rw [List.flatMap_cons, List.length_append, hf, ih, List.length_cons,
      Nat.mul_succ, Nat.add_comm]

theorem forM_writeWord (words : List Value) (out : List (Fin 256)) :
    words.forM writeWord (some out) =
      .ok () (some (out ++ words.flatMap fun lvar => wordBytes (toUInt (numval lvar)))) := by
  induction words generalizing out with
  | nil => rw [List.flatMap_nil, List.append_nil]; rfl
  | cons lvar words ih =>
      have hwrite : writeWord lvar (some out) =
        .ok () (some (out ++ wordBytes (toUInt (numval lvar)))) := rfl
      change (writeWord lvar >>= fun _ => words.forM writeWord) (some out) = _
      rw [bind_ok hwrite, ih, List.flatMap_cons, List.append_assoc]

/-! ## Loaded bytes -/

/-- LBU at the physical address loads the byte. -/
def LbuReturns (cfg : Config) (procs : Procs) (address : Int) (byte : Fin 256) : Prop :=
  ∀ (s : Hart) (mtval : Int), s.procs = procs → loadValueAt cfg mtval 8 false address s = .ok byte.val s

theorem ofBytes_toNat (c0 c1 c2 c3 : Nat) :
    (ofBytes c0 c1 c2 c3).toNat = c0 + 256 * (c1 + 256 * (c2 + 256 * c3)) := by
  unfold ofBytes
  omega

theorem ofBytes_digits {c0 c1 c2 c3 : Nat} (h0 : c0 < 256) (h1 : c1 < 256) (h2 : c2 < 256)
    (h3 : c3 < 256) :
    let w := (ofBytes c0 c1 c2 c3).toNat
    w / 256 ^ 0 % 256 = c0 ∧ w / 256 ^ 1 % 256 = c1 ∧ w / 256 ^ 2 % 256 = c2 ∧
    w / 256 ^ 3 % 256 = c3 := by
  intro w
  have hw : w = c0 + 256 * (c1 + 256 * (c2 + 256 * c3)) := ofBytes_toNat c0 c1 c2 c3
  have e1 : w / 256 ^ 1 = c1 + 256 * (c2 + 256 * c3) := by rw [pow_one]; omega
  have e2 : w / 256 ^ 2 = c2 + 256 * c3 := by rw [pow_succ, ← Nat.div_div_eq_div_mul, e1]; omega
  have e3 : w / 256 ^ 3 = c3 := by rw [pow_succ, ← Nat.div_div_eq_div_mul, e2]; omega
  rw [pow_zero, Nat.div_one, e1, e2, e3]
  omega

/-- The bytes of a word in RAM are in the other order. -/
theorem swapEndianness_byte (v : Int) {j : Nat} (hj : j < 4) :
    (swapEndianness v).toNat / 256 ^ j % 256 = (v % 2 ^ 32).toNat / 256 ^ (3 - j) % 256 := by
  obtain ⟨b0, b1, b2, b3, h0, h1, h2, h3, hv⟩ :=
    exists_ofBytes (v := v % 2 ^ 32) (Int.emod_nonneg _ (by decide))
    (Int.emod_lt_of_pos _ (by decide))
  rw [swapEndianness_emod, hv, swapEndianness_ofBytes h0 h1 h2 h3]
  obtain ⟨c0, rfl⟩ := Int.eq_ofNat_of_zero_le h0.1
  obtain ⟨c1, rfl⟩ := Int.eq_ofNat_of_zero_le h1.1
  obtain ⟨c2, rfl⟩ := Int.eq_ofNat_of_zero_le h2.1
  obtain ⟨c3, rfl⟩ := Int.eq_ofNat_of_zero_le h3.1
  have l0 : c0 < 256 := by omega
  have l1 : c1 < 256 := by omega
  have l2 : c2 < 256 := by omega
  have l3 : c3 < 256 := by omega
  obtain ⟨d0, d1, d2, d3⟩ := ofBytes_digits l0 l1 l2 l3
  obtain ⟨e0, e1, e2, e3⟩ := ofBytes_digits l3 l2 l1 l0
  generalize (ofBytes c0 c1 c2 c3).toNat = w at *
  generalize (ofBytes c3 c2 c1 c0).toNat = w' at *
  interval_cases j
  · exact e0.trans d3.symm
  · exact e1.trans d2.symm
  · exact e2.trans d1.symm
  · exact e3.trans d0.symm

theorem exists_hart (procs : Procs) :
    ∃ s : Hart, s.procs = procs := ⟨{ bareHart with procs := procs }, rfl⟩

theorem lbuReturns_iff {a : Int} {byte : Fin 256} (ha : InRam cfg a) :
    LbuReturns cfg procs a byte ↔ byte.val = (ramBytes cfg procs a).toNat := by
  have hlt := (ramBytes cfg procs a).isLt
  have hload (s : Hart) (mtval : Int) (hs : s.procs = procs) :
      loadValueAt cfg mtval 8 false a s = .ok ((ramBytes cfg procs a).toNat : Int) s := by
    have h := @loadValueAt_ram cfg a ha .lbu (Int.emod_one a) mtval s
    have hread : (ramBytes cfg procs).read a 1 = (ramBytes cfg procs a).toNat := by
      rw [Memory.read, Memory.read, mul_zero, add_zero]
    rw [Isa.LoadOp.bytes, hs, hread, Isa.LoadOp.extend, BitVec.toNat_ofNat,
      Nat.mod_eq_of_lt (by omega)] at h
    exact h
  constructor
  · intro h
    obtain ⟨s, hs⟩ := exists_hart procs
    have hbyte := h s 0 hs
    rw [hload s 0 hs] at hbyte
    have heq := (EStateM.Result.ok.inj hbyte).1
    omega
  · intro hbyte s mtval hs
    rw [hload s mtval hs, hbyte]

theorem not_lbuReturns {a : Int} {byte : Fin 256} (h : cfg.ramEnd ≤ a) (hmmio : a < mmioStart) :
    ¬LbuReturns cfg procs a byte := by
  intro hload
  have hram : ramStart ≤ cfg.ramEnd := by
    unfold PageConfig.ramEnd
    omega
  have hrom := cfg.romSize_le
  have hstart : ramStart = 0x80000000 := rfl
  obtain ⟨s, hs⟩ := exists_hart procs
  have hword : loadWord cfg a { mcause := 5, mtval := 0 } s = .error { mcause := 5, mtval := 0 } s := by
    rw [loadWord, if_neg (by unfold PageConfig.romSize; omega), loadRamOrMmioWord,
      if_neg (by omega), if_neg (by omega), if_pos h]
    rfl
  have hbyte := hload s 0 hs
  rw [loadValueAt, bind_error hword] at hbyte
  cases hbyte

end Mlogv32.Mod
