import Mlogv32.Build.Theorems.Layout
import Mlogv32.Mod.Lemmas.Flash

/-!
# The ROM image

An image is written to ROM by `build` or by `flashRom`, and the CPU reads its words.
-/

namespace Mlogv32.Mod
open Mlog Cpu Build Logic

variable {a : ConfigArgs} {this : Tile} {cfg : Config} {data : List (Fin 256)}

/-- The ROM of a placed schematic. -/
def builtRom (a : ConfigArgs) (configLink this : Tile) (bin : Option (List (Fin 256))) : RomStrings :=
  romStrings (placeBlocks configLink this (buildMemory a configLink bin))

/-- The addresses below `n` give the words of the image. -/
def ReadsBack (cfg : Config) (v : RomStrings) (data : List (Fin 256)) (n : Int) : Prop :=
  ∀ x, 0 ≤ x → x < n → loadRomWordUnchecked (withRom cfg v) x = (dataMemory data).read (x / 4 * 4) 4

structure RomRoundTrip (a : ConfigArgs) (this : Tile) (cfg : Config) (data : List (Fin 256)) : Prop where
  build : ∀ configLink, ReadsBack cfg (builtRom a configLink this (some data)) data cfg.romSize
  flash : data.length % 4 = 0 → ∀ configLink bin, ∃ procs,
    flashRom cfg data (builtRom a configLink this bin) = .ok data.length procs ∧
    ReadsBack cfg procs data data.length

/-! ## The built ROM -/

theorem lookup_map {α β γ : Type*} [BEq β] [LawfulBEq β] {g : α → β} (f : α → γ) {l : List α}
    {j : α} (hj : j ∈ l) (h : ∀ k ∈ l, g j = g k → j = k) :
    (l.map fun k => (g k, f k)).lookup (g j) = some (f j) := by
  induction l with
  | nil => cases hj
  | cons k l ih =>
      rw [List.map_cons, List.lookup_cons]
      by_cases hk : g j = g k
      · rw [h k (List.mem_cons_self ..) hk, beq_self_eq_true]
      · rw [beq_eq_false_iff_ne.mpr hk]
        have hj' : j ∈ l := (List.mem_cons.mp hj).resolve_left fun hjk => hk (hjk ▸ rfl)
        exact ih hj' fun i hi => h i (List.mem_cons_of_mem _ hi)

theorem builtRom_tile (h : a.RowsOk) (hcfg : a.Configures this cfg) (configLink : Tile)
    (bin : Option (List (Fin 256))) {k : Nat} (hk : 16384 * (k : Int) < cfg.romSize) :
    builtRom a configLink this bin (cfg.tile k) = some (chunk (binData bin) k) := by
  have hsize := romSize_eq hcfg
  have hrows : a.memoryWidth * a.romHeight ≤ a.memoryHeight * a.memoryWidth := by
    rw [mul_comm]
    exact mul_le_mul_of_nonneg_right h.memoryHeight (zero_le_one.trans h.memoryWidth)
  have hmem : k ∈ List.range (a.memoryHeight * a.memoryWidth).toNat := List.mem_range.mpr (by omega)
  have hinj (i : Nat) (_ : i ∈ List.range (a.memoryHeight * a.memoryWidth).toNat)
      (heq : cfg.tile k = cfg.tile i) :
      k = i := by
    have hproc := cfg.tile_inj (by omega) (by omega) heq
    omega
  have hlookup := lookup_map (g := fun k : Nat => cfg.tile k)
    (blockAt (a.romHeight * a.memoryWidth).toNat (binData bin)) hmem hinj
  rw [builtRom, placeBlocks_eq h hcfg, romStrings, hlookup, blockAt,
    if_pos (by rw [mul_comm a.romHeight]; omega)]
  rfl

theorem builtRom_present (h : a.RowsOk) (hcfg : a.Configures this cfg) (configLink : Tile)
    (bin : Option (List (Fin 256))) : RomPresent cfg (builtRom a configLink this bin) := by
  intro k hk
  rw [builtRom_tile h hcfg configLink bin hk]
  rfl

/-! ## The padding -/

theorem padData_length (data : List (Fin 256)) :
    (padData data).length = if data.length % 4 ≠ 0 then data.length + data.length % 4
    else data.length := by
  rw [padData]
  split_ifs with h
  · rw [List.length_append, List.length_take]
    simp
    omega
  · rfl

theorem getD_append_zeros (zeros : List (Fin 256)) (h : ∀ c ∈ zeros, c = 0) (n : Nat) :
    (data ++ zeros).getD n 0 = data.getD n 0 := by
  rw [List.getD_eq_getElem?_getD, List.getD_eq_getElem?_getD, List.getElem?_append]
  split_ifs with hn
  · rfl
  · rw [List.getElem?_eq_none (not_lt.mp hn)]
    cases hget : zeros[n - data.length]? with
    | none => rfl
    | some c => exact h c (List.mem_of_getElem? hget)

theorem dataMemory_padData : dataMemory (padData data) = dataMemory data := by
  funext x
  rw [dataMemory, dataMemory, padData]
  split_ifs with h0 hlen
  · have hzeros (c : Fin 256) (hc : c ∈ [0, 0, 0, 0].take (data.length % 4)) : c = 0 := by
      have hmem := List.mem_of_mem_take hc
      simpa using hmem
    rw [getD_append_zeros _ hzeros]
  · rfl
  · rfl

/-- A word of the built ROM. It is lost if the padding does not fill it. -/
theorem builtRom_word (h : a.RowsOk) (hcfg : a.Configures this cfg) (configLink : Tile) {x : Nat}
    (hx : (x : Int) < cfg.romSize) :
    loadRomWordUnchecked (withRom cfg (builtRom a configLink this (some data))) x =
      if x / 4 * 4 + 4 ≤ (padData data).length then
        ((dataMemory data).read (x / 4 * 4 : Nat) 4 : Int) else 0 := by
  have hin : InRom cfg x := ⟨by omega, hx⟩
  have hlt := hin.lt
  have htile := builtRom_tile h hcfg configLink (some data) (k := x / 16384) (by omega)
  rw [show binData (some data) = padData data from rfl] at htile
  have hword := loadRomWordUnchecked_chunk (by omega) htile
  rw [dataMemory_padData] at hword
  exact hword

/-! ## Reading back -/

theorem dataMemory_behind {x : Int} (h : data.length ≤ x) (n : Nat) :
    (dataMemory data).read x n = 0 := by
  induction n generalizing x with
  | zero => rfl
  | succ n ih =>
      have hbyte : (dataMemory data x).toNat = 0 := by
        rw [dataMemory, if_pos (by omega), List.getD_eq_default _ _ (by omega)]
        rfl
      rw [Memory.read, hbyte, ih (by omega)]

/-- The word with the last byte of an image that ends there. -/
theorem dataMemory_last {n : Nat} (h : data.length = n + 1) :
    (dataMemory data).read n 4 = (data.getD n 0).val := by
  rw [Memory.read, dataMemory_toNat, dataMemory_behind (by omega), mul_zero, add_zero]

/-- The condition on the last byte. -/
def LastWordKept (data : List (Fin 256)) : Prop :=
  data.length % 4 = 1 → data.getD (data.length - 1) 0 = 0

theorem readsBack_build_iff (h : a.RowsOk) (hcfg : a.Configures this cfg)
    (hsize : (data.length : Int) ≤ cfg.romSize) (configLink : Tile) :
    ReadsBack cfg (builtRom a configLink this (some data)) data cfg.romSize ↔ LastWordKept data := by
  have hpad := padData_length data
  constructor
  · intro hread hlen
    have hword := hread (data.length - 1 : Nat) (by omega) (by omega)
    have halign : (data.length - 1) / 4 * 4 = data.length - 1 := by omega
    have halign' : ((data.length - 1 : Nat) : Int) / 4 * 4 = (data.length - 1 : Nat) := by omega
    rw [builtRom_word h hcfg configLink (by omega), halign, halign',
      if_neg (by split_ifs at hpad; omega; omega), dataMemory_last (by omega)] at hword
    exact Fin.ext (Int.natCast_inj.mp hword.symm)
  · intro hlast x h0 hx
    obtain ⟨n, rfl⟩ := Int.eq_ofNat_of_zero_le h0
    have halign : (n : Int) / 4 * 4 = (n / 4 * 4 : Nat) := by omega
    rw [builtRom_word h hcfg configLink hx, halign]
    split_ifs with hn
    · rfl
    · by_cases hbehind : data.length ≤ n / 4 * 4
      · rw [dataMemory_behind (by exact_mod_cast hbehind)]
        rfl
      · -- only the padding of a single byte leaves a word open
        have hlen : data.length % 4 = 1 ∧ n / 4 * 4 = data.length - 1 := by split_ifs at hpad <;> omega
        have hbyte := hlast hlen.1
        rw [hlen.2, dataMemory_last (by omega), hbyte]
        rfl

/-- `flashRom` succeeds, and fills the processors of the image. -/
theorem flashRom_eq {procs : RomStrings} (h : RomPresent cfg procs)
    (hsize : (data.length : Int) ≤ cfg.romSize) (hlen : data.length % 4 = 0) :
    flashRom cfg data procs =
      .ok data.length (flashed cfg procs data ((data.length + 16383) / 16384)) := by
  have hstart : data.drop (16384 * 0) = [] ++ data := rfl
  have hloop := flashRom_loop h hsize hstart (by decide) (Nat.zero_le _)
  rw [Nat.mul_zero, flashed] at hloop
  rw [flashRom, bind_ok (require_pos hlen), bind_ok (require_pos hsize), bind_ok hloop]
  dsimp only
  by_cases hrest : data.drop (16384 * (data.length / 16384)) = []
  · have hdone := List.drop_eq_nil_iff.mp hrest
    have hcount : (data.length + 16383) / 16384 = data.length / 16384 := by omega
    rw [if_neg (not_not.mpr hrest), hcount]
    rfl
  · have hopen := mt List.drop_eq_nil_iff.mpr hrest
    have hcount : (data.length + 16383) / 16384 = data.length / 16384 + 1 := by omega
    have hbytes : data.drop (16384 * (data.length / 16384)) =
        (data.drop (16384 * (data.length / 16384))).take 16384 :=
      (List.take_of_length_le (by rw [List.length_drop]; omega)).symm
    rw [if_pos hrest, hcount, bind_ok (flashRomProc_ok h (by omega) hbytes)]
    rfl

theorem readsBack_flashed {procs : RomStrings} (hsize : (data.length : Int) ≤ cfg.romSize)
    (hlen : data.length % 4 = 0) :
    ReadsBack cfg (flashed cfg procs data ((data.length + 16383) / 16384)) data data.length := by
  intro x h0 hx
  obtain ⟨n, rfl⟩ := Int.eq_ofNat_of_zero_le h0
  have hin : InRom cfg n := ⟨by omega, by omega⟩
  have hlt := hin.lt
  have halign : (n : Int) / 4 * 4 = (n / 4 * 4 : Nat) := by omega
  have hproc : n / 16384 < (data.length + 16383) / 16384 := by omega
  have htile : flashed cfg procs data ((data.length + 16383) / 16384) (cfg.tile (n / 16384 : Nat)) =
      some (chunk data (n / 16384)) := flashed_tile hproc
  rw [loadRomWordUnchecked_chunk (by omega) htile, if_pos (by omega), halign]

/-! ## Round trip -/

/-- The image comes back exactly when the padding keeps the last word. -/
theorem rom_round_trip (h : a.RowsOk) (hcfg : a.Configures this cfg)
    (hsize : (data.length : Int) ≤ cfg.romSize) :
    RomRoundTrip a this cfg data ↔ LastWordKept data := by
  constructor
  · intro hread
    exact (readsBack_build_iff h hcfg hsize this).mp (hread.build this)
  · intro hlast
    exact {
      build := fun configLink => (readsBack_build_iff h hcfg hsize configLink).mpr hlast
      flash := fun hlen configLink bin =>
        ⟨_, flashRom_eq (builtRom_present h hcfg configLink bin) hsize hlen,
        readsBack_flashed hsize hlen⟩ }

theorem micro_rows : micro.RowsOk := ⟨by decide, by decide, by decide, by decide, by decide⟩

theorem exists_micro : ∃ cfg, micro.Configures (9, 16) cfg ∧ cfg.romSize = 524288 := by
  obtain ⟨cfg, hcfg⟩ := exists_configures micro_rows (by decide) (by decide) (9, 16)
  exact ⟨cfg, hcfg, (romSize_eq hcfg).trans (by decide)⟩

theorem rom_round_trip_micro :
    ∃ cfg, micro.Configures (9, 16) cfg ∧ RomRoundTrip micro (9, 16) cfg [1, 2, 3] := by
  obtain ⟨cfg, hcfg, hsize⟩ := exists_micro
  refine ⟨cfg, hcfg, (rom_round_trip micro_rows hcfg ?_).mpr fun h => absurd h (by decide)⟩
  rw [hsize]
  decide

/-- The only byte of an image is lost. -/
theorem rom_round_trip_loses_byte :
    ∃ cfg, micro.Configures (9, 16) cfg ∧ (([1] : List (Fin 256)).length : Int) ≤ cfg.romSize ∧
    ¬RomRoundTrip micro (9, 16) cfg [1] := by
  obtain ⟨cfg, hcfg, hsize⟩ := exists_micro
  have hfits : (([1] : List (Fin 256)).length : Int) ≤ cfg.romSize := by
    rw [hsize]
    decide
  refine ⟨cfg, hcfg, hfits, fun h => ?_⟩
  have hkept := (readsBack_build_iff micro_rows hcfg hfits (9, 16)).mp (h.build (9, 16))
  exact absurd (hkept rfl) (by decide)

end Mlogv32.Mod
