import Mlogv32.Cpu.Lemmas.Effect
import Mlogv32.Cpu.Lemmas.Fetch

/-!
# MLOGSYS

The loop decodes the words of ROM below `etext` one by one, each to its slot of the icache.
-/

namespace Mlogv32.Cpu
open Mlog Logic Isa

variable {cfg : PageConfig} {s : Hart}

/-! ## The loop -/

/-- The slot of the last word, which the successor of its variable follows. -/
def MlogsysCursor (cfg : PageConfig) (address : Int) (ram : Tile) (v : Value) : Prop :=
  v = .null ∨ (IcacheCell cfg (cfg.ramSize + address) ∧ address % 4 = 0 ∧
    ∃ i, v = .var i ∧ accessRamRaw cfg (cfg.ramSize + address) = (ram, .var i))

theorem PageConfig.programRomIcacheSize_le (cfg : PageConfig) :
    cfg.programRomIcacheSize ≤ ramStart ∧ cfg.programRomIcacheSize ≤ cfg.icacheSize := by
  have := cfg.romSize_le
  unfold PageConfig.programRomIcacheSize ramStart
  omega

theorem icacheSlot_rom {a : Int} (h : a < cfg.programRomIcacheSize) :
    icacheSlot cfg a = accessRamRaw cfg (cfg.ramSize + a) := by
  rw [icacheSlot, if_pos (h.trans_le cfg.programRomIcacheSize_le.1)]

/-- The slot that the loop finds from the cursor is the slot of the address. -/
theorem mlogsysLoop_slot {address : Int} {ram : Tile} {v : Value}
    (hincr : ∀ i, s.procs cfg.incr i = successor i) (hcursor : MlogsysCursor cfg address ram v)
    (hrom : 0 ≤ address + 4 ∧ address + 4 < cfg.programRomIcacheSize) :
    (if (readProc s.procs cfg.incr v v).isNull then icacheSlot cfg (address + 4)
      else (ram, readProc s.procs cfg.incr v v)) = icacheSlot cfg (address + 4) := by
  have hslot := icacheSlot_rom hrom.2
  rcases hcursor with rfl | ⟨hcell, hmod, i, rfl, hi⟩
  · rfl
  · rw [readProc, hincr]
    have hram := cfg.ramSize_aligned
    rcases successor_slot hcell (by omega) hi with ⟨hnull, -⟩ | ⟨-, -, hsucc⟩
    · rw [hnull]
      rfl
    · split
      · rfl
      · rw [hslot, ← hsucc]
        congr 1
        ring

theorem decodeToIcache_incr (s : Hart) {a : Int} (ha : 0 ≤ a ∧ a < cfg.programRomIcacheSize)
    (w : Int) (i : Nat) :
    (decodeToIcache cfg s a w).procs cfg.incr i = s.procs cfg.incr i := by
  obtain ⟨b, hb, hslot, -⟩ := icacheSlot_cell cfg (Or.inl ha)
  dsimp only [decodeToIcache]
  rw [hslot]
  exact writeCell_of_ne s.procs _ hb.inCells.ne_incr i

/-- What every decoded word keeps holds after the loop. -/
theorem mlogsysLoop_induct {P : Int → Hart → Prop}
    (hP : ∀ a s, P a s → 0 ≤ a → a % 4 = 0 → a < s.etext →
      P (a + 4) (decodeToIcache cfg s a (loadRomWordUnchecked cfg a)))
    (fuel : Nat) (address : Int) (ram : Tile) (v : Value) (s : Hart)
    (hincr : ∀ i, s.procs cfg.incr i = successor i)
    (hetext : s.etext ≤ cfg.programRomIcacheSize) (hcursor : MlogsysCursor cfg address ram v)
    (h0 : 0 ≤ address + 4)
    (halign : address % 4 = 0) (hfuel : s.etext ≤ address + 4 + 4 * fuel) (h : P (address + 4) s) :
    ∃ a, s.etext ≤ a ∧ P a (mlogsysLoop cfg fuel address ram v s) := by
  induction fuel generalizing address ram v s with
  | zero => exact ⟨address + 4, by omega, h⟩
  | succ fuel ih =>
      rw [mlogsysLoop]
      dsimp only
      by_cases hend : address + 4 < s.etext
      · have hrom : 0 ≤ address + 4 ∧ address + 4 < cfg.programRomIcacheSize := ⟨h0, by omega⟩
        rw [if_pos hend, mlogsysLoop_slot hincr hcursor hrom]
        have hdecode := hP _ s h h0 (by omega) hend
        have hincr' (i : Nat) : (decodeToIcache cfg s (address + 4)
          (loadRomWordUnchecked cfg (address + 4))).procs cfg.incr i =
            successor i := (decodeToIcache_incr s hrom _ i).trans (hincr i)
        obtain ⟨b, hb, hslot, rfl⟩ := icacheSlot_cell cfg (Or.inl hrom)
        have hlow := cfg.programRomIcacheSize_le.1
        rw [if_pos (by omega)] at hb hslot
        obtain ⟨ram', j, heq⟩ : ∃ ram' j, accessRamRaw cfg (cfg.ramSize + (address + 4)) =
            (ram', .var j) :=
          ⟨_, _, accessRamRaw_eq cfg hb.inCells.1⟩
        exact ih (address + 4) _ _
          (decodeToIcache cfg s (address + 4) (loadRomWordUnchecked cfg (address + 4)))
            hincr' hetext
          (Or.inr ⟨hb, by omega, j, by rw [hslot, heq], by rw [hslot, heq]⟩) (by omega) (by omega)
          (by dsimp only [decodeToIcache]; omega) hdecode
      · rw [if_neg hend]
        exact ⟨address + 4, by omega, h⟩

/-- The fuel suffices: with more of it the loop does the same. -/
theorem mlogsysLoop_fuel (cfg : PageConfig) (fuel k : Nat) (address : Int) (ram : Tile) (v : Value)
    (s : Hart) (hfuel : s.etext ≤ address + 4 + 4 * fuel) :
    mlogsysLoop cfg (fuel + k) address ram v s = mlogsysLoop cfg fuel address ram v s := by
  induction fuel generalizing address ram v s with
  | zero =>
      cases k with
      | zero => rfl
      | succ k =>
          have hend : ¬address + 4 < s.etext := by
            push_cast at hfuel
            omega
          rw [Nat.zero_add]
          exact if_neg hend
  | succ fuel ih =>
      rw [Nat.succ_add, mlogsysLoop, mlogsysLoop]
      dsimp only
      split
      · refine ih _ _ _ _ ?_
        push_cast at hfuel
        dsimp only
        omega
      · rfl

/-! ## The instruction -/

theorem mlogsysEtext_range (cfg : PageConfig) (rs1 : Int) :
    0 ≤ mlogsysEtext cfg rs1 ∧ mlogsysEtext cfg rs1 ≤ cfg.programRomIcacheSize := by
  have h := opAnd_le (a := rs1 + 4096) (b := 0xfffff000) (by decide) (by decide)
  unfold mlogsysEtext PageConfig.programRomIcacheSize
  omega

theorem mlogsysHart_induct {P : Int → Hart → Prop}
    (hP : ∀ a s, P a s → 0 ≤ a → a % 4 = 0 → a < s.etext →
      P (a + 4) (decodeToIcache cfg s a (loadRomWordUnchecked cfg a)))
    (hincr : ∀ i, s.procs cfg.incr i = successor i) (rs1 : Int)
    (h : P 0 { s with etext := mlogsysEtext cfg rs1 }) :
    ∃ a, mlogsysEtext cfg rs1 ≤ a ∧ P a (mlogsysHart cfg rs1 s) := by
  obtain ⟨hnonneg, hle⟩ := mlogsysEtext_range cfg rs1
  exact mlogsysLoop_induct hP _ (-4) (0, 0) .null
    { s with etext := mlogsysEtext cfg rs1 } hincr hle (Or.inl rfl)
    (by decide) (by decide) (by dsimp only; omega) h

theorem mlogsysHart_sound (hs : Sound cfg s) (rs1 : Int) : Sound cfg (mlogsysHart cfg rs1 s) := by
  have hle := (mlogsysEtext_range cfg rs1).2
  have hs' : Sound cfg { s with etext := mlogsysEtext cfg rs1 } :=
    { incr := hs.incr, csrLabels := hs.csrLabels, slots := hs.slots, cursor := hs.cursor,
      etext := hle, pc := hs.pc
      vectors := hs.vectors }
  obtain ⟨a, -, h⟩ := mlogsysHart_induct (P := fun _ s => Sound cfg s)
    (fun a s h h0 _ hlt => h.decodeToIcache (loadRomWordUnchecked_word cfg a)
      (Or.inl ⟨h0, hlt.trans_le h.etext⟩))
    hs.incr rs1 hs'
  exact h

theorem mlogsysHart_frame (hincr : ∀ i, s.procs cfg.incr i = successor i) (rs1 : Int) :
    ∃ imm procs, mlogsysHart cfg rs1 s =
      { s with etext := mlogsysEtext cfg rs1, imm := imm, procs := procs } ∧
      procs cfg.csrs = s.procs cfg.csrs := by
  have hle := (mlogsysEtext_range cfg rs1).2
  obtain ⟨a, -, h⟩ := mlogsysHart_induct (P := fun _ s' => ∃ imm procs,
    s' = { s with etext := mlogsysEtext cfg rs1, imm := imm, procs := procs } ∧
    procs cfg.csrs = s.procs cfg.csrs)
    (by
      rintro a s' ⟨imm, procs, rfl, hprocs⟩ h0 - hlt
      obtain ⟨b, hb, hslot, -⟩ := icacheSlot_cell cfg (Or.inl ⟨h0, lt_of_lt_of_le hlt hle⟩)
      refine ⟨_, _, rfl, ?_⟩
      rw [hslot]
      funext i
      exact (writeCell_of_ne procs _ hb.inCells.ne_csrs i).trans (congrFun hprocs i))
    hincr rs1 ⟨s.imm, s.procs, rfl, rfl⟩
  exact h

end Mlogv32.Cpu
