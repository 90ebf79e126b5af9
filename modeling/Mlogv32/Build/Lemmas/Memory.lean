import Mlogv32.Build.Memory
import Mlogv32.Cpu.Lemmas.Cells

/-!
# The order of the memory processors

The loops of `build` visit the tiles in the order of their processor indices.
-/

namespace Mlogv32.Build
open Mlog Cpu

/-! ## Positions -/

theorem flatMap_range_rows {α : Type*} (f : Nat → Nat → α) {w : Nat} (hw : 0 < w) (h : Nat) :
    ((List.range h).flatMap fun y => (List.range w).map fun x => f x y) =
      (List.range (h * w)).map fun k => f (k % w) (k / w) := by
  induction h with
  | zero => simp
  | succ h ih =>
      have hrow : (List.range w).map (fun x => f x h) =
          (List.range w).map fun x => f ((h * w + x) % w) ((h * w + x) / w) := by
        refine List.map_congr_left fun x hx => ?_
        have hlt := List.mem_range.mp hx
        rw [Nat.mul_add_mod_self_right, Nat.mod_eq_of_lt hlt, Nat.add_comm, Nat.add_mul_div_right _ _ hw,
          Nat.div_eq_of_lt hlt, Nat.zero_add]
      rw [List.range_succ, List.flatMap_append, ih, List.flatMap_singleton, hrow,
        Nat.succ_mul, List.range_add, List.map_append, List.map_map]
      rfl

theorem memoryPositions_eq (baseX : Int) {w h : Nat} (hw : 0 < w) :
    memoryPositions baseX w h = (List.range (h * w)).map fun k =>
      (baseX + (k % w : Nat), ((k / w : Nat) : Int)) := by
  rw [← flatMap_range_rows (fun x y => (baseX + (x : Int), (y : Int))) hw h]
  simp only [memoryPositions, lenrange, Int.toNat_natCast, List.flatMap_map, List.map_map, zero_add]
  rfl

/-! ## Blocks -/

/-- The processor at an index. -/
def blockAt (romCount : Nat) (data : List (Fin 256)) (k : Nat) : MemoryBlock :=
  if k < romCount then .rom (((data.drop (16384 * k)).take 16384).map fun c => 174 + c.val) else .ram

/-- The bytes that are placed before a processor: all up to its own, if there are so many. -/
theorem addBlock_range (baseX baseY : Int) (data : List (Fin 256)) {w : Nat} (hw : 0 < w)
    (romHeight n : Nat) :
    let s := ((List.range n).map fun k => (baseX + (k % w : Nat), ((k / w : Nat) : Int))).foldl
      (addBlock romHeight baseY data) (0, [])
    (n ≤ romHeight * w → s.1 = 16384 * n ∨ data.length ≤ s.1 ∧ s.1 ≤ 16384 * n) ∧
    s.2 = (List.range n).map fun k =>
      ((baseX + (k % w : Nat), baseY + (k / w : Nat)), blockAt (romHeight * w) data k) := by
  induction n with
  | zero => exact ⟨fun _ => Or.inl rfl, rfl⟩
  | succ n ih =>
      obtain ⟨hcount, hblocks⟩ := ih
      have hrow : ((n / w : Nat) : Int) < romHeight ↔ n < romHeight * w := by
        rw [Int.ofNat_lt, Nat.div_lt_iff_lt_mul hw]
      simp only [List.range_succ, List.map_append, List.map_cons, List.map_nil,
        List.foldl_append, List.foldl_cons, List.foldl_nil]
      generalize List.foldl (addBlock romHeight baseY data) (0, []) _ = s at hcount hblocks ⊢
      rw [addBlock, blockAt, ← hblocks]
      dsimp only
      by_cases hrom : n < romHeight * w
      · rw [if_pos (hrow.mpr hrom), if_pos hrom]
        have hcount := hcount hrom.le
        by_cases hdata : s.1 < data.length
        · have hs : s.1 = 16384 * n := by omega
          rw [if_pos hdata, hs]
          exact ⟨fun _ => Or.inl rfl, rfl⟩
        · have hdrop : data.drop (16384 * n) = [] := List.drop_eq_nil_of_le (by omega)
          rw [if_neg hdata, hdrop]
          exact ⟨fun _ => Or.inr (by dsimp only; omega), rfl⟩
      · rw [if_neg (mt hrow.mp hrom), if_neg hrom]
        exact ⟨fun h => by omega, rfl⟩

variable {a : ConfigArgs} {this : Tile} {cfg : Config}

/-- The numbers of rows are not negative. -/
structure ConfigArgs.RowsOk (a : ConfigArgs) : Prop where
  memoryWidth : 1 ≤ a.memoryWidth
  programRomRows : 0 ≤ a.programRomRows
  dataRomRows : 0 ≤ a.dataRomRows
  ramRows : 0 ≤ a.ramRows
  icacheRows : 0 ≤ a.icacheRows

theorem ConfigArgs.RowsOk.romHeight (h : a.RowsOk) : 0 ≤ a.romHeight :=
  add_nonneg h.programRomRows h.dataRomRows

theorem ConfigArgs.RowsOk.memoryHeight (h : a.RowsOk) : a.romHeight ≤ a.memoryHeight := by
  have hram := h.ramRows
  have hicache := h.icacheRows
  unfold ConfigArgs.memoryHeight
  omega

/-- The placed processors are those of the CPU, in the order of their indices. -/
theorem placeBlocks_eq (h : a.RowsOk) (hcfg : a.Configures this cfg) (configLink : Tile)
    (bin : Option (List (Fin 256))) :
    placeBlocks configLink this (buildMemory a configLink bin) =
      (List.range (a.memoryHeight * a.memoryWidth).toNat).map fun (k : Nat) =>
        (cfg.tile k, blockAt (a.romHeight * a.memoryWidth).toNat (binData bin) k) := by
  obtain ⟨w, hw⟩ := Int.eq_ofNat_of_zero_le (zero_le_one.trans h.memoryWidth)
  obtain ⟨r, hr⟩ := Int.eq_ofNat_of_zero_le h.romHeight
  obtain ⟨n, hn⟩ := Int.eq_ofNat_of_zero_le (h.romHeight.trans h.memoryHeight)
  have hpos : 0 < w := by
    have hone := h.memoryWidth
    omega
  have hwidth : cfg.memoryWidth = w := by
    have hw' := hcfg.memoryWidth
    omega
  have htile (k : Nat) : cfg.tile k = ((k % w : Nat) + cfg.memoryX, (k / w : Nat) + cfg.memoryY) := by
    rw [PageConfig.tile, procTile, hwidth, opMod_eq (by omega) (by omega), opIdiv_eq _ (by omega)]
    rfl
  obtain ⟨-, hblocks⟩ := addBlock_range (configLink.1 + a.memoryXOffset)
    (configLink.2 + a.memoryYOffset) (binData bin) hpos r
    (n * w)
  rw [buildMemory, hw, hr, hn, memoryPositions_eq _ hpos, hblocks, placeBlocks, List.map_map]
  rw [← Int.natCast_mul, ← Int.natCast_mul, Int.toNat_natCast, Int.toNat_natCast]
  refine List.map_congr_left fun k _ => ?_
  rw [Function.comp_apply, htile, hcfg.memoryX, hcfg.memoryY]
  refine Prod.ext (Prod.ext ?_ ?_) rfl
  · dsimp only
    omega
  · dsimp only
    omega

/-! ## Slots -/

theorem opAnd_aligned {x : Int} (h0 : 0 ≤ x) (h : x < 2 ^ 32) : opAnd x 0xfffffffc = x / 4 * 4 := by
  have hmask := opAnd_mask x 2 30 (b := 0xfffffffc) (by decide) (by decide)
  rw [hmask]
  omega

theorem romSlot_eq {x : Int} (h0 : 0 ≤ x) (h : x < 2 ^ 32) :
    romSlot cfg x = (cfg.tile (x / 16384), x % 16384) := by
  have hindex : x / 4 * 4 / 16384 = x / 16384 := by omega
  have hchar : x / 4 * 4 % 16384 + (x - x / 4 * 4) = x % 16384 := by omega
  rw [romSlot, opAnd_aligned h0 h, romProcBytes, opIdiv_eq _ (by decide),
    opMod_eq (by omega) (by decide), hindex, hchar]

/-- `load_rom_word_unchecked` reads the slots of the four bytes of a word. -/
theorem loadRomWordUnchecked_eq {x : Int} (h0 : 0 ≤ x) (h : x < 2 ^ 32) :
    loadRomWordUnchecked cfg x =
      max (romChar cfg (cfg.tile (x / 16384)) (x / 4 * 4 % 16384) +
        opShl (romChar cfg (cfg.tile (x / 16384)) (x / 4 * 4 % 16384 + 1)) 8 +
        opShl (romChar cfg (cfg.tile (x / 16384)) (x / 4 * 4 % 16384 + 2)) 16 +
        opShl (romChar cfg (cfg.tile (x / 16384)) (x / 4 * 4 % 16384 + 3)) 24 -
        romByteOffset * (1 + 2 ^ 8 + 2 ^ 16 + 2 ^ 24)) 0 := by
  have hindex : x / 4 * 4 / 16384 = x / 16384 := by omega
  rw [loadRomWordUnchecked, opAnd_aligned h0 h, romProcBytes, opIdiv_eq _ (by decide),
    opMod_eq (by omega) (by decide), hindex]

end Mlogv32.Build
