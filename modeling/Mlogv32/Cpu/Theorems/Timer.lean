import Mlogv32.Cpu.Timer
import Mlogv32.Cpu.Lemmas.Fetched

/-! The rounding of mtime over a run of ticks. -/

namespace Mlogv32.Cpu
open Mlog Logic Isa

variable {cfg : Config} {mtimeScale : ℚ} {c₀ c : Clock} {ticks : List (Clock × ℚ)}

/-! ## One tick -/

theorem Clock.delta_nonneg {time : ℚ} (hscale : 0 < mtimeScale) (htime : c.lastMtimeUpdate ≤ time) :
    0 ≤ c.delta mtimeScale time :=
  number_nonneg (mul_nonneg (number_nonneg (sub_nonneg.mpr htime)) hscale.le)

theorem Clock.tick_halves {time : ℚ} (hscale : 0 < mtimeScale)
    (hrunning : c.machine.point.isRunning = true) (htime : c.lastMtimeUpdate ≤ time)
    (hlow : IsWord c.machine.hart.csrMtime) :
    (c.tick cfg mtimeScale time).machine.hart.csrMtime =
        ⌊number (c.machine.hart.csrMtime + c.delta mtimeScale time)⌋ % 2 ^ 32 ∧
      (c.tick cfg mtimeScale time).machine.hart.csrMtimeh = toDouble (c.machine.hart.csrMtimeh +
        opShr (saturate ⌊number (c.machine.hart.csrMtime + c.delta mtimeScale time)⌋) 32) := by
  have hdelta := Clock.delta_nonneg hscale htime
  have hlow0 : (0 : ℚ) ≤ c.machine.hart.csrMtime := by exact_mod_cast hlow.1
  have hfloor := Int.floor_nonneg.mpr (number_nonneg (add_nonneg hlow0 hdelta))
  have hmachine : (c.tick cfg mtimeScale time).machine =
    c.machine.tick (c.delta mtimeScale time).toNNRat := if_pos hrunning
  have hsum : (c.machine.hart.csrMtime : ℚ) + (c.delta mtimeScale time).toNNRat =
      c.machine.hart.csrMtime + c.delta mtimeScale time := by rw [Rat.coe_toNNRat _ hdelta]
  rw [← hsum] at hfloor ⊢
  have hmod := opMod_eq hfloor (b := 0x100000000) (by decide)
  rw [hmachine]
  exact ⟨hmod, rfl⟩

theorem Clock.tick_isWord {time : ℚ} (hscale : 0 < mtimeScale)
    (hrunning : c.machine.point.isRunning = true) (htime : c.lastMtimeUpdate ≤ time)
    (hlow : IsWord c.machine.hart.csrMtime) :
    IsWord (c.tick cfg mtimeScale time).machine.hart.csrMtime := by
  rw [(Clock.tick_halves hscale hrunning htime hlow).1]
  exact ⟨Int.emod_nonneg _ (by decide), Int.emod_lt_of_pos _ (by decide)⟩

/-- A tick adds the time since the last one, less what its operations lose. -/
theorem Clock.tick_mtime {time : ℚ} (hscale : 0 < mtimeScale)
    (hrunning : c.machine.point.isRunning = true) (htime : c.lastMtimeUpdate ≤ time)
    (hlow : IsWord c.machine.hart.csrMtime) :
    ((c.tick cfg mtimeScale time).mtime : ℚ) =
      c.mtime + mtimeScale * (time - c.lastMtimeUpdate) - c.tickLoss mtimeScale time := by
  obtain ⟨hcsrMtime, hcsrMtimeh⟩ := @Clock.tick_halves cfg _ _ _ hscale hrunning htime hlow
  have hfract := Int.floor_add_fract (number (c.machine.hart.csrMtime + c.delta mtimeScale time))
  have hhalves :=
    Int.mul_ediv_add_emod ⌊number (c.machine.hart.csrMtime + c.delta mtimeScale time)⌋ (2 ^ 32)
  have hhalvesq := congrArg (Int.cast : Int → ℚ) hhalves
  rw [Clock.mtime, Clock.mtime, hcsrMtime, hcsrMtimeh, Clock.tickLoss]
  push_cast at hhalvesq ⊢
  linear_combination hhalvesq + hfract

/-! ## Runs -/

theorem totalLoss_concat (ticks : List (Clock × ℚ)) (c : Clock) (time : ℚ) :
    totalLoss mtimeScale (ticks ++ [(c, time)]) = totalLoss mtimeScale ticks +
      c.tickLoss mtimeScale time := by
  simp [totalLoss]

/-- In a run mtime gains the elapsed time, less what the ticks lose. -/
theorem Ticks.mtime (hscale : 0 < mtimeScale) (hlow : IsWord c₀.machine.hart.csrMtime)
    (h : Ticks cfg mtimeScale c₀ ticks c) :
    (c.mtime : ℚ) = c₀.mtime + mtimeScale * (c.lastMtimeUpdate - c₀.lastMtimeUpdate) -
      totalLoss mtimeScale ticks ∧
      IsWord c.machine.hart.csrMtime := by
  induction h with
  | init => exact ⟨by simp [totalLoss], hlow⟩
  | @tick ticks c time h hrunning htime ih =>
      obtain ⟨hmtime, hword⟩ := ih
      refine ⟨?_, Clock.tick_isWord hscale hrunning htime hword⟩
      have htick := @Clock.tick_mtime cfg _ _ _ hscale hrunning htime hword
      have hlast : (c.tick cfg mtimeScale time).lastMtimeUpdate = time := rfl
      rw [totalLoss_concat, hlast]
      linear_combination htick + hmtime
  | @other ticks c e h he hmtime hmtimeh ih =>
      have hsame : (c.other cfg e).mtime = c.mtime := by rw [Clock.mtime, Clock.mtime, hmtime, hmtimeh]
      rwa [hsame, hmtime]

/-- The clock of the small build after a reset at time 0. -/
def resetClock : Clock :=
  { machine := Machine.start (smallBuild fun _ _ => none) fun _ _ => 0, lastMtimeUpdate := 0 }

theorem resetClock_csrMtime : IsWord resetClock.machine.hart.csrMtime := ⟨le_rfl, by decide⟩

end Mlogv32.Cpu
