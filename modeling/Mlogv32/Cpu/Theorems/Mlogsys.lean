import Mlogv32.Cpu.Lemmas.Mlogsys

/-!
# The icache of ROM

MLOGSYS decodes the first pages of ROM. An argument in the last page of the address space is rounded
up to 2^32, which the mask to 32 bits makes 0.
-/

namespace Mlogv32.Cpu
open Mlog Logic Isa

variable {cfg : PageConfig} {s : Hart}

/-! ## The decoded words -/

/-- The immediate that the decoder leaves after the first `k` words of ROM. -/
def mlogsysImm (cfg : PageConfig) (imm : Int) : Nat → Int
  | 0 => imm
  | k + 1 => (decode (loadRomWordUnchecked cfg (4 * k)) (mlogsysImm cfg imm k)).imm

/-- The decoded form of word `k` of ROM. -/
def mlogsysPayload (cfg : PageConfig) (imm : Int) (k : Nat) : Int :=
  (decode (loadRomWordUnchecked cfg (4 * k)) (mlogsysImm cfg imm k)).payload

/-- The hart after the first `k` words. -/
structure RomDecoded (cfg : PageConfig) (etext : Int) (s : Hart) (k : Nat) (t : Hart) : Prop where
  etext : t.etext = etext
  registers : t.registers = s.registers
  imm : t.imm = mlogsysImm cfg s.imm k
  cells : ∀ b, 0 ≤ b → cell cfg t.procs b =
    if (cfg.ramSize : Int) ≤ b ∧ b < cfg.ramSize + 4 * k then
      .num (mlogsysPayload cfg s.imm ((b - cfg.ramSize) / 4).toNat)
    else cell cfg s.procs b

theorem RomDecoded.next {etext : Int} {k : Nat} {t : Hart} (h : RomDecoded cfg etext s k t)
    (hk : 4 * (k : Int) < cfg.programRomIcacheSize) :
    RomDecoded cfg etext s (k + 1)
      (decodeToIcache cfg t (4 * k) (loadRomWordUnchecked cfg (4 * k))) where
  etext := h.etext
  registers := h.registers
  imm := by
    dsimp only [decodeToIcache]
    rw [h.imm]
    rfl
  cells b hb := by
    have hram := cfg.ramSize_aligned
    have hslot := icacheSlot_rom hk
    have hcell := cell_writeCell cfg t.procs
      (.num (decode (loadRomWordUnchecked cfg (4 * k)) t.imm).payload) (a := cfg.ramSize + 4 * k)
        (by omega) hb
    dsimp only [decodeToIcache]
    rw [hslot]
    refine hcell.trans ?_
    rw [h.imm, h.cells b hb]
    by_cases hself : b / 4 = (cfg.ramSize + 4 * k) / 4
    · have hword : ((b - cfg.ramSize) / 4).toNat = k := by omega
      rw [if_pos hself, if_pos (by omega), hword]
      rfl
    · rw [if_neg hself]
      by_cases hdone : (cfg.ramSize : Int) ≤ b ∧ b < cfg.ramSize + 4 * k
      · rw [if_pos hdone, if_pos (by omega)]
      · rw [if_neg hdone, if_neg (by omega)]

theorem mlogsysEtext_aligned (cfg : PageConfig) (rs1 : Int) : mlogsysEtext cfg rs1 % 4096 = 0 := by
  have hmask := opAnd_mask (rs1 + 4096) 12 20 (b := 0xfffff000) (by decide) (by decide)
  have hprogram := cfg.programRomSize_aligned
  have hicache := cfg.icacheSize_aligned
  unfold mlogsysEtext PageConfig.programRomIcacheSize
  rw [hmask]
  omega

/-- The loop decodes all words below `etext`. -/
theorem mlogsysHart_decoded (hincr : ∀ i, s.procs cfg.incr i = successor i) (rs1 : Int) :
    ∃ k : Nat, 4 * (k : Int) = mlogsysEtext cfg rs1 ∧
    RomDecoded cfg (mlogsysEtext cfg rs1) s k (mlogsysHart cfg rs1 s) := by
  have haligned := mlogsysEtext_aligned cfg rs1
  obtain ⟨hnonneg, hle⟩ := mlogsysEtext_range cfg rs1
  obtain ⟨a, ha, k, rfl, hk, hdecoded⟩ :=
    mlogsysHart_induct (P := fun a t => ∃ k : Nat, 4 * (k : Int) = a ∧
      a ≤ mlogsysEtext cfg rs1 ∧ RomDecoded cfg (mlogsysEtext cfg rs1) s k t)
    (by
      rintro a t ⟨k, rfl, -, h⟩ - - hlt
      rw [h.etext] at hlt
      exact ⟨k + 1, by push_cast; ring, by omega, h.next (by omega)⟩)
    hincr rs1
    ⟨0, rfl, hnonneg, rfl, rfl, rfl, fun b hb => by rw [if_neg (by push_cast; omega)]⟩
  exact ⟨k, by omega, hdecoded⟩

/-! ## Coverage -/

/-- The processor on a tile holds a part of ROM. It has no variables for slots. -/
def PageConfig.HoldsRom (cfg : PageConfig) (t : Tile) : Prop :=
  ∃ i : Int, 0 ≤ i ∧ i * 16384 < cfg.romSize ∧ t = cfg.tile i

/-- RAM starts in the processor where ROM ends, if ROM does not fill it. -/
theorem holdsRom_slot_iff {k : Nat} (hk : 4 * (k : Int) < cfg.programRomIcacheSize) :
    cfg.HoldsRom (icacheSlot cfg (4 * k)).1 ↔ ¬16384 ∣ cfg.romSize ∧
    cfg.ramSize + 4 * (k : Int) < 16384 := by
  have hproc := cfg.ramStartProc_eq
  have hnonneg := cfg.ramStartProc_nonneg
  rw [icacheSlot_rom hk, accessRamRaw_fst cfg (by omega)]
  constructor
  · rintro ⟨i, hi, hrom, htile⟩
    have heq := cfg.tile_inj (by omega) hi htile
    omega
  · rintro ⟨hpart, hsmall⟩
    exact ⟨_, by omega, by omega, rfl⟩

/-- What MLOGSYS is for: the slots of the words below `etext` are decoded, and nothing else changes. -/
structure MlogsysDone (cfg : PageConfig) (rs1 : Int) (s t : Hart) : Prop where
  etext_aligned : t.etext % 4096 = 0
  etext_range : min rs1 cfg.programRomIcacheSize ≤ t.etext ∧ t.etext ≤ cfg.programRomIcacheSize
  slots : ∀ k : Nat, 4 * (k : Int) < t.etext → ¬cfg.HoldsRom (icacheSlot cfg (4 * k)).1 ∧
    readProc t.procs (icacheSlot cfg (4 * k)).1 (icacheSlot cfg (4 * k)).2 .null =
      .num (mlogsysPayload cfg s.imm k)
  ram : ∀ b, InRam cfg b → loadRamWordUnchecked cfg t.procs b = loadRamWordUnchecked cfg s.procs b
  ramSlots : ∀ b, ramStart ≤ b → b < cfg.icacheEnd →
    readProc t.procs (icacheSlot cfg b).1 (icacheSlot cfg b).2 .null =
      readProc s.procs (icacheSlot cfg b).1 (icacheSlot cfg b).2 .null
  registers : t.registers = s.registers

/-- The loop does all of it but for the lower bound of `etext` and slots in a processor of ROM. -/
theorem mlogsysHart_done (hincr : ∀ i, s.procs cfg.incr i = successor i) {rs1 : Int}
    (h : min rs1 cfg.programRomIcacheSize ≤ mlogsysEtext cfg rs1)
    (hrom : mlogsysEtext cfg rs1 = 0 ∨ 16384 ∣ cfg.romSize ∨ 16384 ≤ cfg.ramSize) :
    MlogsysDone cfg rs1 s (mlogsysHart cfg rs1 s) := by
  obtain ⟨k, hk, hdecoded⟩ := mlogsysHart_decoded hincr rs1
  have hle := (mlogsysEtext_range cfg rs1).2
  constructor
  · rw [hdecoded.etext]
    exact mlogsysEtext_aligned cfg rs1
  · rw [hdecoded.etext]
    exact ⟨h, hle⟩
  · intro j hj
    rw [hdecoded.etext] at hj
    have hslot : icacheSlot cfg (4 * j) = accessRamRaw cfg (cfg.ramSize + 4 * j) :=
      icacheSlot_rom (by omega)
    have hcell := hdecoded.cells (cfg.ramSize + 4 * j) (by omega)
    rw [if_pos (by omega), show ((cfg.ramSize + 4 * (j : Int) - cfg.ramSize) / 4).toNat =
      j by omega] at hcell
    rw [holdsRom_slot_iff (by omega), hslot]
    refine ⟨fun hpart => ?_, hcell⟩
    rcases hrom with hrom | hrom | hrom
    · omega
    · exact hpart.1 hrom
    · omega
  · intro b hb
    unfold InRam PageConfig.ramEnd at hb
    rw [loadRamWordUnchecked_eq, loadRamWordUnchecked_eq, hdecoded.cells _ (by omega), if_neg (by omega)]
  · intro b hb hb'
    obtain ⟨hcell, -⟩ := icacheOffset_ram hb hb'
    have hslot : icacheSlot cfg b = accessRamRaw cfg (cfg.ramIcacheOffset + b) := by
      rw [icacheSlot, if_neg (not_lt.mpr hb)]
    have hsize : cfg.programRomIcacheSize ≤ cfg.programRomSize := by
      unfold PageConfig.programRomIcacheSize
      omega
    have hcells := hdecoded.cells (cfg.ramIcacheOffset + b) (by omega)
    rw [if_neg (by unfold PageConfig.ramIcacheOffset; omega)] at hcells
    rw [hslot]
    exact hcells
  · exact hdecoded.registers

/-- Rounding up to a page gives 0 in the last page. -/
theorem mlogsysEtext_covers {rs1 : Int} (h0 : 0 ≤ rs1) (h : rs1 < 2 ^ 32) :
    (min rs1 cfg.programRomIcacheSize ≤ mlogsysEtext cfg rs1 ↔ rs1 < 0xfffff000 ∨
      cfg.programRomIcacheSize = 0) ∧
      (rs1 < 0xfffff000 → mlogsysEtext cfg rs1 = 0 → cfg.programRomIcacheSize = 0) := by
  have hmask := opAnd_mask (rs1 + 4096) 12 20 (b := 0xfffff000) (by decide) (by decide)
  have hnonneg : 0 ≤ cfg.programRomIcacheSize := by
    unfold PageConfig.programRomIcacheSize
    omega
  unfold mlogsysEtext
  rw [hmask]
  omega

/-- In M-mode, with INCR as the controller has written it: MLOGSYS ends, and it has covered what its
argument asks for if and only if there is no icache for ROM, or the argument is not in the last page
and no slot of ROM lies in the processor where ROM ends. -/
theorem mlogsys_covers_iff (cfg : PageConfig) {d : Fetched} {rs1 rs2 : Int} {s : Hart}
    (hlabel : labels (d.opId + 192) = some .MLOGSYS) (hmode : s.privilegeMode = 3)
    (hincr : ∀ i, s.procs cfg.incr i = initIncr i) (h0 : 0 ≤ rs1) (h : rs1 < 2 ^ 32) :
    (∀ fuel ≥ (mlogsysEtext cfg rs1).toNat / 4 + 1,
      mlogsysLoop cfg fuel (-4) (0, 0) .null { s with etext := mlogsysEtext cfg rs1 } =
        mlogsysHart cfg rs1 s) ∧
    execute cfg d rs1 rs2 s = .ok .endInstruction (mlogsysHart cfg rs1 s) ∧
    (MlogsysDone cfg rs1 s (mlogsysHart cfg rs1 s) ↔
      cfg.programRomIcacheSize = 0 ∨ rs1 < 0xfffff000 ∧
      (16384 ∣ cfg.romSize ∨ 16384 ≤ cfg.ramSize)) := by
  have hsuccessor (i : Nat) : s.procs cfg.incr i = successor i := (hincr i).trans (initIncr_eq i)
  refine ⟨fun fuel hfuel => ?_, ?_, ?_⟩
  · obtain ⟨k, rfl⟩ := Nat.exists_eq_add_of_le hfuel
    exact mlogsysLoop_fuel cfg _ k (-4) (0, 0) .null _ (by dsimp only; omega)
  · have hpriv : ¬s.privilegeMode < 0b11 := by omega
    rw [execute_eq cfg rs1 rs2 hlabel]
    change mlogsys cfg rs1 s = _
    rw [mlogsys, bind_get, if_neg hpriv]
    rfl
  · obtain ⟨hcovers, hpositive⟩ := @mlogsysEtext_covers cfg rs1 h0 h
    obtain ⟨hnonneg, hle⟩ := mlogsysEtext_range cfg rs1
    constructor
    · intro hdone
      obtain ⟨k, -, hdecoded⟩ := mlogsysHart_decoded hsuccessor rs1
      have hrange := hdone.etext_range.1
      rw [hdecoded.etext, hcovers] at hrange
      by_cases hnone : cfg.programRomIcacheSize = 0
      · exact Or.inl hnone
      · have hlow := hrange.resolve_right hnone
        have hfirst := (hdone.slots 0 (by rw [hdecoded.etext]; have := hpositive hlow; omega)).1
        rw [holdsRom_slot_iff (by have := hpositive hlow; omega), not_and_or, not_not] at hfirst
        exact Or.inr ⟨hlow, hfirst.imp_right fun hram => by omega⟩
    · intro hcond
      refine mlogsysHart_done hsuccessor (hcovers.mpr ?_) ?_
      · exact hcond.symm.imp_left And.left
      · rcases hcond with hnone | ⟨-, hrom⟩
        · exact Or.inl (by omega)
        · exact Or.inr hrom

/-- The fetched instruction `mlogsys.icache x1`. -/
def mlogsysX1 : Fetched :=
  { opId := 1, imm := 0, result := 4398046511104, rdId := 0, rs1Id := 1, rs2Id := 0 }

theorem mlogsys_covers_iff_page :
    MlogsysDone (smallBuild fun _ _ => none) 4096 bareHart
      (mlogsysHart (smallBuild fun _ _ => none) 4096 bareHart) := by
  have hlabel : labels (mlogsysX1.opId + 192) = some .MLOGSYS := by decide +kernel
  have hmode : bareHart.privilegeMode = 3 := by decide
  have hincr (i : Nat) : bareHart.procs (smallBuild fun _ _ => none).incr i = initIncr i :=
    (start_incr (smallBuild fun _ _ => none) (fun _ _ => 0) i).trans (initIncr_eq i).symm
  exact (@mlogsys_covers_iff (smallBuild fun _ _ => none) mlogsysX1 4096 0 bareHart
    hlabel hmode hincr (by decide)
    (by decide)).2.2.mpr (Or.inr ⟨by decide, Or.inr (by decide)⟩)

/-- An argument in the last page decodes nothing. -/
theorem mlogsys_lastPage :
    labels (mlogsysX1.opId + 192) = some .MLOGSYS ∧
    (stepPoint (smallBuild fun _ _ => none) (.execute mlogsysX1 0xffffffff 0) bareHart).1 =
      .ending .endInstruction ∧
    (stepPoint (smallBuild fun _ _ => none) (.execute mlogsysX1 0xffffffff 0) bareHart).2.etext = 0 ∧
    (smallBuild fun _ _ => none).programRomIcacheSize = 0x80000 ∧
    ¬MlogsysDone (smallBuild fun _ _ => none) 0xffffffff bareHart
      (stepPoint (smallBuild fun _ _ => none) (.execute mlogsysX1 0xffffffff 0) bareHart).2 := by
  have hetext : (stepPoint (smallBuild fun _ _ => none) (.execute mlogsysX1 0xffffffff 0)
      bareHart).2.etext = 0 := by
    decide +kernel
  refine ⟨by decide +kernel, by decide +kernel, hetext, by decide +kernel, fun h => ?_⟩
  have hrange := h.etext_range.1
  rw [hetext] at hrange
  exact absurd hrange (by decide)

end Mlogv32.Cpu
