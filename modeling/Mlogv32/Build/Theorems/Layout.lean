import Mlogv32.Build.Lemmas.Memory

/-!
# The layout of memory

ROM, RAM and the icache use different processors, which are the ones that `build` places.
-/

namespace Mlogv32.Build
open Mlog Cpu

variable {a : ConfigArgs} {this : Tile} {cfg : Config}

/-! ## Regions -/

def InRom (cfg : Config) (x : Int) : Prop := 0 ≤ x ∧ x < cfg.romSize

/-- The address of a word of RAM. -/
def RamWord (cfg : Config) (x : Int) : Prop := 4 ∣ x ∧ ramStart ≤ x ∧ x < cfg.ramEnd

/-- The address of a word with an icache slot. -/
def IcacheWord (cfg : Config) (x : Int) : Prop := 4 ∣ x ∧ IcacheCovered cfg x

/-- ROM, RAM and the icache do not overlap, and their processors are those that `build` places. -/
structure MemoryLayout (a : ConfigArgs) (this : Tile) (cfg : Config) : Prop where
  romSlot_inj : ∀ x y, InRom cfg x → InRom cfg y → romSlot cfg x = romSlot cfg y → x = y
  accessRam_inj : ∀ x y, RamWord cfg x → RamWord cfg y → accessRam cfg x = accessRam cfg y → x = y
  icacheSlot_inj : ∀ x y, IcacheWord cfg x → IcacheWord cfg y →
    icacheSlot cfg x = icacheSlot cfg y → x = y
  mainIcacheSlot : ∀ x, IcacheWord cfg x → mainIcacheSlot cfg x = icacheSlot cfg x
  rom_ne_ram : ∀ x y, InRom cfg x → RamWord cfg y → (romSlot cfg x).1 ≠ (accessRam cfg y).1
  rom_ne_icache : ∀ x y, InRom cfg x → IcacheWord cfg y → (romSlot cfg x).1 ≠ (icacheSlot cfg y).1
  ram_ne_icache : ∀ x y, RamWord cfg x → IcacheWord cfg y → (accessRam cfg x).1 ≠ (icacheSlot cfg y).1
  procs : ∀ t, (∃ x, InRom cfg x ∧ (romSlot cfg x).1 = t) ∨
    (∃ x, RamWord cfg x ∧ (accessRam cfg x).1 = t) ∨
      (∃ x, IcacheWord cfg x ∧ (icacheSlot cfg x).1 = t) →
    ∃ i, 0 ≤ i ∧ i < a.memoryWidth * a.memoryHeight ∧ t = cfg.tile i
  placed : ∀ configLink bin, (placeBlocks configLink this (buildMemory a configLink bin)).map Prod.fst =
    (lenrange 0 (a.memoryWidth * a.memoryHeight)).map cfg.tile
  kinds : ∀ configLink bin, ∀ block ∈ placeBlocks configLink this (buildMemory a configLink bin),
    (∃ payload, block.2 = .rom payload) ↔ ∃ x, InRom cfg x ∧ (romSlot cfg x).1 = block.1

/-! ## Processors -/

section

variable (hcfg : a.Configures this cfg)
include hcfg

theorem romSize_eq : cfg.romSize = a.memoryWidth * a.romHeight * 16384 := by
  have hprogram := hcfg.programRomSize
  have hdata := hcfg.dataRomSize
  rw [PageConfig.romSize, hprogram, hdata, ConfigArgs.programRomSize,
    ConfigArgs.dataRomSize, ConfigArgs.rowsToBytes, ConfigArgs.romHeight]
  ring

theorem ramStartProc_eq : cfg.ramStartProc = a.memoryWidth * a.romHeight := by
  have hstart := cfg.ramStartProc_eq
  rw [romSize_eq hcfg] at hstart
  omega

theorem memorySize_eq :
    cfg.romSize + cfg.ramSize + cfg.icacheSize = a.memoryWidth * a.memoryHeight * 16384 := by
  rw [romSize_eq hcfg, hcfg.ramSize, hcfg.icacheSize, ConfigArgs.ramSize,
    ConfigArgs.icacheSize, ConfigArgs.rowsToBytes, ConfigArgs.memoryHeight]
  ring

theorem ramSize_dvd : (16384 : Int) ∣ cfg.ramSize := by
  rw [hcfg.ramSize]
  exact ⟨a.ramRows * a.memoryWidth, by rw [ConfigArgs.ramSize, ConfigArgs.rowsToBytes]; ring⟩

theorem programRomSize_dvd : (16384 : Int) ∣ cfg.programRomSize := by
  rw [hcfg.programRomSize]
  exact ⟨a.programRomRows *
    a.memoryWidth, by rw [ConfigArgs.programRomSize, ConfigArgs.rowsToBytes]; ring⟩

end

theorem InRom.lt {x : Int} (h : InRom cfg x) : x < 2 ^ 32 := by
  have hsize := cfg.romSize_le
  have hlt := h.2
  unfold PageConfig.romSize at hlt
  omega

theorem IcacheCovered.slot {x : Int} (h : IcacheCovered cfg x) :
    ∃ k, icacheSlot cfg x = accessRamRaw cfg (cfg.ramSize + k) ∧ mainIcacheSlot cfg x =
      icacheSlot cfg x ∧ 0 ≤ k ∧
      k < cfg.icacheSize ∧ (x < ramStart → k = x) ∧
      (ramStart ≤ x → k = cfg.programRomSize + x - ramStart) := by
  have hrom := cfg.romSize_le
  have hsize : (cfg.programRomSize : Int) ≤ ramStart := by
    unfold ramStart
    omega
  rcases h with ⟨h0, hlt⟩ | ⟨h0, hlt⟩
  · have hle : x < cfg.programRomSize := hlt.trans_le (min_le_left _ _)
    refine ⟨x, ?_, ?_, h0, hlt.trans_le (min_le_right _ _), fun _ => rfl, fun h => by omega⟩
    · rw [icacheSlot, if_pos (by omega)]
    · rw [mainIcacheSlot, if_pos hlt, icacheSlot, if_pos (by omega)]
  · have hend : ¬(cfg.icacheSize : Int) ≤ cfg.programRomSize := by
      intro hle
      rw [PageConfig.icacheEnd, if_pos hle] at hlt
      omega
    have hmain : ¬x < cfg.programRomIcacheSize := by
      have hle : cfg.programRomIcacheSize ≤ cfg.programRomSize := min_le_left _ _
      omega
    rw [PageConfig.icacheEnd, if_neg hend, lt_min_iff] at hlt
    refine ⟨cfg.programRomSize + x - ramStart, ?_, ?_, by omega, by omega,
      fun h => by omega, fun _ => rfl⟩
    · rw [icacheSlot, if_neg (by omega), PageConfig.ramIcacheOffset]
      congr 1
      ring
    · rw [mainIcacheSlot, if_neg hmain, icacheSlot, if_neg (by omega)]

/-! ## The layout -/

theorem romSlot_proc (hcfg : a.Configures this cfg) {x : Int} (h : InRom cfg x) :
    (romSlot cfg x).1 = cfg.tile (x / 16384) ∧ 0 ≤ x / 16384 ∧
    x / 16384 < a.memoryWidth * a.romHeight := by
  have hlt := h.2
  have h0 := h.1
  rw [romSize_eq hcfg] at hlt
  rw [romSlot_eq h.1 h.lt]
  exact ⟨rfl, by omega, by omega⟩

theorem accessRam_proc (hcfg : a.Configures this cfg) {x : Int} (h : RamWord cfg x) :
    ∃ i, (accessRam cfg x).1 = cfg.tile i ∧ a.memoryWidth * a.romHeight ≤ i ∧
      i * 16384 < cfg.romSize + cfg.ramSize := by
  obtain ⟨-, h0, hlt⟩ := h
  have hsize := romSize_eq hcfg
  unfold PageConfig.ramEnd at hlt
  refine ⟨(x - ramStart) / 4 / 4096 + cfg.ramStartProc, ?_, ?_, ?_⟩
  · rw [accessRam, accessRamRaw_eq cfg (by omega)]
  · rw [ramStartProc_eq hcfg]
    omega
  · rw [ramStartProc_eq hcfg]
    omega

theorem icacheSlot_proc (hcfg : a.Configures this cfg) {x : Int} (h : IcacheWord cfg x) :
    ∃ i, (icacheSlot cfg x).1 = cfg.tile i ∧ cfg.romSize + cfg.ramSize ≤ i * 16384 ∧
      i < a.memoryWidth * a.memoryHeight := by
  obtain ⟨k, hslot, -, h0, hlt, -⟩ := h.2.slot
  have hsize := romSize_eq hcfg
  have htotal := memorySize_eq hcfg
  have hdvd := ramSize_dvd hcfg
  refine ⟨(cfg.ramSize + k) / 4 / 4096 + cfg.ramStartProc, ?_, ?_, ?_⟩
  · rw [hslot, accessRamRaw_eq cfg (by omega)]
  · rw [ramStartProc_eq hcfg]
    omega
  · rw [ramStartProc_eq hcfg]
    omega

theorem icacheSlot_inj {x y : Int} (hx : IcacheWord cfg x) (hy : IcacheWord cfg y)
    (hprogram : (16384 : Int) ∣ cfg.programRomSize) (h : icacheSlot cfg x = icacheSlot cfg y) :
    x = y := by
  obtain ⟨hx4, hx⟩ := hx
  obtain ⟨hy4, hy⟩ := hy
  obtain ⟨k, hk, -, h0, -, hklow, hkhigh⟩ := hx.slot
  obtain ⟨l, hl, -, h0', -, hllow, hlhigh⟩ := hy.slot
  rw [hk, hl] at h
  have heq := accessRamRaw_inj cfg (by omega) (by omega) h
  have hrom : cfg.programRomIcacheSize ≤ cfg.programRomSize := min_le_left _ _
  have hstart : ramStart = 0x80000000 := rfl
  have hlow {z : Int} (hz : IcacheCovered cfg z) (hlt : z < ramStart) : z < cfg.programRomSize := by
    rcases hz with hz | hz
    · exact hz.2.trans_le hrom
    · exact absurd hz.1 (by omega)
  have hram := cfg.ramSize_aligned
  rcases lt_or_ge x ramStart with hxs | hxs <;> rcases lt_or_ge y ramStart with hys | hys
  · have hk := hklow hxs
    have hl := hllow hys
    omega
  · have hk := hklow hxs
    have hl := hlhigh hys
    have hlt := hlow hx hxs
    omega
  · have hk := hkhigh hxs
    have hl := hllow hys
    have hlt := hlow hy hys
    omega
  · have hk := hkhigh hxs
    have hl := hlhigh hys
    omega

theorem memoryLayout (h : a.RowsOk) (hcfg : a.Configures this cfg) : MemoryLayout a this cfg where
  romSlot_inj x y hx hy heq := by
    have hx0 := hx.1
    have hy0 := hy.1
    rw [romSlot_eq hx.1 hx.lt, romSlot_eq hy.1 hy.lt, Prod.mk.injEq] at heq
    have hproc := cfg.tile_inj (by omega) (by omega) heq.1
    have hindex := heq.2
    omega
  accessRam_inj x y hx hy heq := by
    obtain ⟨hx4, hx0, -⟩ := hx
    obtain ⟨hy4, hy0, -⟩ := hy
    have hstart : ramStart = 0x80000000 := rfl
    have hword := accessRamRaw_inj cfg (by omega) (by omega) heq
    omega
  icacheSlot_inj _ _ hx hy heq := icacheSlot_inj hx hy (programRomSize_dvd hcfg) heq
  mainIcacheSlot _ hx := by
    obtain ⟨-, -, hmain, -⟩ := hx.2.slot
    exact hmain
  rom_ne_ram x y hx hy heq := by
    obtain ⟨hrom, h0, hlt⟩ := romSlot_proc hcfg hx
    obtain ⟨i, hram, hi, -⟩ := accessRam_proc hcfg hy
    have hproc := cfg.tile_inj h0 (by omega) (hrom.symm.trans (heq.trans hram))
    omega
  rom_ne_icache x y hx hy heq := by
    obtain ⟨hrom, h0, hlt⟩ := romSlot_proc hcfg hx
    obtain ⟨i, hicache, hi, -⟩ := icacheSlot_proc hcfg hy
    have hsize := romSize_eq hcfg
    have hproc := cfg.tile_inj h0 (by omega) (hrom.symm.trans (heq.trans hicache))
    omega
  ram_ne_icache x y hx hy heq := by
    obtain ⟨i, hram, hlow, hi⟩ := accessRam_proc hcfg hx
    obtain ⟨j, hicache, hj, -⟩ := icacheSlot_proc hcfg hy
    have hsize := romSize_eq hcfg
    have hrom := cfg.ramStartProc_nonneg
    rw [ramStartProc_eq hcfg] at hrom
    have hproc := cfg.tile_inj (by omega) (by omega) (hram.symm.trans (heq.trans hicache))
    omega
  procs t ht := by
    have hrom := cfg.ramStartProc_nonneg
    have hsize := romSize_eq hcfg
    have htotal := memorySize_eq hcfg
    rw [ramStartProc_eq hcfg] at hrom
    rcases ht with ⟨x, hx, rfl⟩ | ⟨x, hx, rfl⟩ | ⟨x, hx, rfl⟩
    · obtain ⟨heq, h0, hlt⟩ := romSlot_proc hcfg hx
      exact ⟨_, h0, by omega, heq⟩
    · obtain ⟨i, heq, hlow, hi⟩ := accessRam_proc hcfg hx
      exact ⟨i, by omega, by omega, heq⟩
    · obtain ⟨i, heq, hi, hlt⟩ := icacheSlot_proc hcfg hx
      exact ⟨i, by omega, hlt, heq⟩
  placed configLink bin := by
    rw [placeBlocks_eq h hcfg, lenrange, List.map_map, List.map_map, mul_comm a.memoryHeight]
    refine List.map_congr_left fun k _ => ?_
    simp
  kinds configLink bin block hblock := by
    rw [placeBlocks_eq h hcfg] at hblock
    obtain ⟨k, hk, rfl⟩ := List.mem_map.mp hblock
    have hrom := cfg.ramStartProc_nonneg
    have hsize := romSize_eq hcfg
    rw [ramStartProc_eq hcfg] at hrom
    have hlt : k < (a.romHeight * a.memoryWidth).toNat ↔ (k : Int) < a.memoryWidth * a.romHeight := by
      rw [mul_comm]
      omega
    rw [blockAt]
    constructor
    · rintro ⟨payload, hpayload⟩
      split at hpayload
      · rename_i hkrom
        have hin : InRom cfg (16384 * k) := ⟨by omega, by have hk' := hlt.mp hkrom; omega⟩
        refine ⟨_, hin, ?_⟩
        rw [romSlot_eq hin.1 hin.lt, Int.mul_ediv_cancel_left _ (by decide)]
      · cases hpayload
    · rintro ⟨x, hx, heq⟩
      obtain ⟨htile, h0, hx'⟩ := romSlot_proc hcfg hx
      have hproc := cfg.tile_inj h0 (by omega) (htile.symm.trans heq)
      rw [if_pos (hlt.mpr (hproc ▸ hx'))]
      exact ⟨_, rfl⟩

/-! ## Configurations -/

theorem aligned_rows {rows width : Int} (hrows : 0 ≤ rows) (hwidth : 1 ≤ width) :
    0 ≤ rows * (width * 16384) ∧ (16384 : Int) ∣ rows * (width * 16384) := by
  constructor
  · positivity
  · exact ⟨rows * width, by ring⟩

/-- A configuration whose sizes fit has a CPU. -/
theorem exists_configures (h : a.RowsOk) (hrom : a.programRomSize + a.dataRomSize ≤ ramStart)
    (hram : ramStart + a.ramSize ≤ mmioStart) (this : Tile) : ∃ cfg, a.Configures this cfg := by
  obtain ⟨hp, hp'⟩ := aligned_rows h.programRomRows h.memoryWidth
  obtain ⟨hd, hd'⟩ := aligned_rows h.dataRomRows h.memoryWidth
  obtain ⟨hr, hr'⟩ := aligned_rows h.ramRows h.memoryWidth
  obtain ⟨hi, hi'⟩ := aligned_rows h.icacheRows h.memoryWidth
  have hstart : ramStart = 0x80000000 := rfl
  have hmmio : mmioStart = 0xf0000000 := rfl
  have hwidth := h.memoryWidth
  simp only [ConfigArgs.programRomSize, ConfigArgs.dataRomSize, ConfigArgs.ramSize,
    ConfigArgs.rowsToBytes] at hrom hram
  -- the other processors stand left of the memory
  have hleft {k i : Int} (hk : k < 0) (h0 : 0 ≤ i) (y : Int) :
      procTile (this.1 + a.memoryXOffset) (this.2 + a.memoryYOffset) a.memoryWidth.toNat i ≠
        (this.1 + a.memoryXOffset + k, y) := by
    intro heq
    have hx := congrArg Prod.fst heq
    rw [procTile, opMod_eq h0 (by omega)] at hx
    have hmod := Int.emod_nonneg i (show (a.memoryWidth.toNat : Int) ≠ 0 by omega)
    dsimp only at hx
    omega
  refine ⟨{
    memoryX := this.1 + a.memoryXOffset
    memoryY := this.2 + a.memoryYOffset
    memoryWidth := a.memoryWidth.toNat
    programRomSize := (a.programRomRows * (a.memoryWidth * 16384)).toNat
    dataRomSize := (a.dataRomRows * (a.memoryWidth * 16384)).toNat
    ramSize := (a.ramRows * (a.memoryWidth * 16384)).toNat
    icacheSize := (a.icacheRows * (a.memoryWidth * 16384)).toNat
    uartFifoCapacity := 0
    csrs := (this.1 + a.memoryXOffset + -1, 0)
    incr := (this.1 + a.memoryXOffset + -2, 0)
    csrLabels := (this.1 + a.memoryXOffset + -3, 0)
    rom := fun _ _ => none
    memoryWidth_pos := by omega
    programRomSize_aligned := by omega
    dataRomSize_aligned := by omega
    ramSize_aligned := by omega
    icacheSize_aligned := by omega
    romSize_le := by omega
    ramSize_le := by omega
    csrs_ne := fun i hi _ => hleft (by decide) (by omega) 0
    incr_ne := fun i hi _ => hleft (by decide) (by omega) 0
    csrLabels_ne := fun i hi _ => hleft (by decide) (by omega) 0
    csrs_ne_incr := by simp
    csrs_ne_csrLabels := by simp
    incr_ne_csrLabels := by simp
    romSize_aligned := by omega }, ?_⟩
  constructor <;> simp only [ConfigArgs.programRomSize, ConfigArgs.dataRomSize, ConfigArgs.ramSize,
    ConfigArgs.icacheSize, ConfigArgs.rowsToBytes] <;> omega

/-- Each configuration whose ROM ends below RAM and whose RAM ends below MMIO has a layout without
overlaps. -/
theorem memory_layout (a : ConfigArgs) (h : a.RowsOk)
    (hrom : a.programRomSize + a.dataRomSize ≤ ramStart) (hram : ramStart + a.ramSize ≤ mmioStart)
    (this : Tile) :
    (∃ cfg, a.Configures this cfg) ∧ ∀ cfg, a.Configures this cfg → MemoryLayout a this cfg :=
  ⟨exists_configures h hrom hram this, fun _ hcfg => memoryLayout h hcfg⟩

/-- The configuration `micro`. -/
def micro : ConfigArgs where
  uartFifoCapacity := 253
  dataRomRows := 0
  mtimeFrequency := 1000000
  memoryXOffset := -9
  memoryYOffset := -32
  memoryWidth := 16
  programRomRows := 2
  ramRows := 12
  icacheRows := 2

theorem memory_layout_micro : (∃ cfg, micro.Configures (9, 16) cfg) ∧
    ∀ cfg, micro.Configures (9, 16) cfg → MemoryLayout micro (9, 16) cfg :=
  memory_layout micro ⟨by decide, by decide, by decide, by decide, by decide⟩
    (by decide) (by decide) (9, 16)

end Mlogv32.Build
