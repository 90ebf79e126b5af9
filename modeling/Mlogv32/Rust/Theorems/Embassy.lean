import Mlogv32.Cpu.Theorems.Timer
import Mlogv32.Logic.Wp
import Mlogv32.Rust.Embassy

/-!
# The embassy time

A carry into the high half between the two loads makes the time too large.
-/

namespace Mlogv32.Rust
open Mlog Logic Cpu

variable {cfg : Config} {mtimeScale : ℚ} {c₀ c : Clock} {calls : List NowCall} {r : NowCall}

/-! ## Loads of the timer -/

theorem loadWord_timer (cfg : Config) {address : Int}
    (haddress : address = mmioStart ∨ address = mmioStart + 4) (trap : Trap) (s : Hart) :
    loadWord cfg address trap s = if s.effectivePrivilegeMode < 0b11 then .error trap s
      else .ok (if address = mmioStart then s.csrMtime else s.csrMtimeh) s := by
  have hrom := cfg.romSize_le
  have hmmio : mmioStart = 0xf0000000 := rfl
  have hsyscon : address ≠ syscon := by
    rcases haddress with rfl | rfl <;> decide
  rw [loadWord, if_neg (by unfold PageConfig.romSize; omega), loadRamOrMmioWord,
    if_pos (by omega), loadMmioWord, bind_get, if_neg hsyscon]
  dsimp only
  rcases haddress with rfl | rfl
  · rw [if_neg (by decide), if_neg (by decide), if_pos rfl]
    split <;> rfl
  · rw [if_neg (by decide), if_neg (by decide), if_neg (show ¬mmioStart + 4 = mmioStart by decide)]
    split <;> rfl

theorem eq_of_loadWord_timer {address v : Int}
    (haddress : address = mmioStart ∨ address = mmioStart + 4) {trap : Trap} {s s' : Hart}
    (h : loadWord cfg address trap s = .ok v s') :
    v = if address = mmioStart then s.csrMtime else s.csrMtimeh := by
  rw [loadWord_timer cfg haddress] at h
  split at h
  · cases h
  · exact (EStateM.Result.ok.inj h).1.symm

/-! ## One call -/

namespace NowCall

/-- The time is one that mtime had during the call. -/
def InRange (r : NowCall) : Prop := r.start.mtime ≤ r.value ∧ r.value ≤ r.finish.mtime

variable (hscale : 0 < mtimeScale)
include hscale

theorem Advances.mono {c c' : Clock} (h : Advances cfg mtimeScale c c')
    (hlow : IsWord c.machine.hart.csrMtime) :
    c.mtime ≤ c'.mtime ∧ IsWord c'.machine.hart.csrMtime := by
  obtain ⟨ticks, ht, hadvance⟩ := h
  refine ⟨?_, (ht.mtime hscale hlow).2⟩
  induction ht with
  | init => exact le_rfl
  | @tick ticks c' time ht hrunning htime ih =>
      have hlast := hadvance (c', time) (List.mem_append_right _ (List.mem_singleton_self _))
      exact (ih fun p hp => hadvance p (List.mem_append_left _ hp)).trans hlast
  | @other ticks c' e ht he hmtime hmtimeh ih =>
      have hsame : (c'.other cfg e).mtime = c'.mtime := by rw [Clock.mtime, Clock.mtime, hmtime, hmtimeh]
      exact (ih hadvance).trans hsame.ge

theorem Runs.mono (hr : r.Runs cfg mtimeScale) (hlow : IsWord r.start.machine.hart.csrMtime) :
    r.start.mtime ≤ r.atLow.mtime ∧ r.atLow.mtime ≤ r.atHigh.mtime ∧ r.atHigh.mtime ≤ r.finish.mtime ∧
      IsWord r.finish.machine.hart.csrMtime ∧
      r.value = r.atLow.mtime + 2 ^ 32 *
        (r.atHigh.machine.hart.csrMtimeh - r.atLow.machine.hart.csrMtimeh) := by
  obtain ⟨hmono₁, hword₁⟩ := hr.beforeLow.mono hscale hlow
  obtain ⟨hmono₂, hword₂⟩ := hr.beforeHigh.mono hscale hword₁
  obtain ⟨hmono₃, hword₃⟩ := hr.beforeEnd.mono hscale hword₂
  refine ⟨hmono₁, hmono₂, hmono₃, hword₃, ?_⟩
  obtain ⟨_, _, hloadLow⟩ := hr.low
  obtain ⟨_, _, hloadHigh⟩ := hr.high
  have hloadLow := eq_of_loadWord_timer (Or.inl rfl) hloadLow
  have hloadHigh := eq_of_loadWord_timer (Or.inr rfl) hloadHigh
  rw [if_pos rfl] at hloadLow
  rw [if_neg (by decide)] at hloadHigh
  rw [value, hloadLow, hloadHigh, Clock.mtime]
  ring

theorem Runs.high_mono (hr : r.Runs cfg mtimeScale) (hlow : IsWord r.start.machine.hart.csrMtime) :
    r.atLow.machine.hart.csrMtimeh ≤ r.atHigh.machine.hart.csrMtimeh := by
  obtain ⟨-, hlow0, hlow1⟩ := hr.beforeLow.mono hscale hlow
  obtain ⟨hmono, hhigh0, hhigh1⟩ := hr.beforeHigh.mono hscale ⟨hlow0, hlow1⟩
  unfold Clock.mtime at hmono
  omega

theorem Runs.inRange (hr : r.Runs cfg mtimeScale) (hlow : IsWord r.start.machine.hart.csrMtime)
    (h : r.NoCarry) :
    r.InRange := by
  obtain ⟨h₁, h₂, h₃, -, hvalue⟩ := hr.mono hscale hlow
  rw [h, sub_self, mul_zero, add_zero] at hvalue
  rw [InRange, hvalue]
  exact ⟨h₁, h₂.trans h₃⟩

/-- A carry between the loads takes the time past the end of a call that takes less than 2^32 units. -/
theorem Runs.noCarry (hr : r.Runs cfg mtimeScale) (hlow : IsWord r.start.machine.hart.csrMtime)
    (h : r.InRange) (hshort : r.finish.mtime < r.atLow.mtime + 2 ^ 32) : r.NoCarry := by
  obtain ⟨-, -, -, -, hvalue⟩ := hr.mono hscale hlow
  have hhigh := hr.high_mono hscale hlow
  obtain ⟨-, hend⟩ := h
  unfold NoCarry
  omega

end NowCall

/-! ## Runs -/

/-- Every call gives a time that mtime had during the call, and the times do not go back. -/
def TimeForward (calls : List NowCall) : Prop :=
  (∀ r ∈ calls, r.InRange) ∧ (calls.map NowCall.value).Pairwise (· ≤ ·)

theorem NowCalls.isWord (hscale : 0 < mtimeScale) (hlow : IsWord c₀.machine.hart.csrMtime)
    (h : NowCalls cfg mtimeScale c₀ calls c) : IsWord c.machine.hart.csrMtime := by
  induction h with
  | init => exact hlow
  | ticks _ ht ih => exact (ht.mono hscale ih).2
  | call _ hr ih =>
      obtain ⟨-, -, -, hword, -⟩ := hr.mono hscale ih
      exact hword

/-- Each call of a run starts with a word in the low half. -/
theorem NowCalls.runs (hscale : 0 < mtimeScale) (hlow : IsWord c₀.machine.hart.csrMtime)
    (h : NowCalls cfg mtimeScale c₀ calls c) :
    ∀ r ∈ calls, r.Runs cfg mtimeScale ∧ IsWord r.start.machine.hart.csrMtime := by
  induction h with
  | init => exact fun r hr => absurd hr List.not_mem_nil
  | ticks _ _ ih => exact ih
  | @call calls r h hr ih =>
      intro x hx
      rcases List.mem_append.mp hx with hx | hx
      · exact ih x hx
      · rw [List.mem_singleton.mp hx]
        exact ⟨hr, h.isWord hscale hlow⟩

/-- The times in a run, if every call gives a time of its own. -/
theorem NowCalls.forward (hscale : 0 < mtimeScale) (hlow : IsWord c₀.machine.hart.csrMtime)
    (h : NowCalls cfg mtimeScale c₀ calls c) (hrange : ∀ r ∈ calls, r.InRange) :
    (∀ r ∈ calls, r.value ≤ c.mtime) ∧ (calls.map NowCall.value).Pairwise (· ≤ ·) := by
  induction h with
  | init => exact ⟨fun r hr => absurd hr List.not_mem_nil, List.Pairwise.nil⟩
  | ticks h ht ih =>
      obtain ⟨hle, hpairwise⟩ := ih hrange
      have hmono := (ht.mono hscale (h.isWord hscale hlow)).1
      exact ⟨fun r hr => (hle r hr).trans hmono, hpairwise⟩
  | @call calls r h hr ih =>
      obtain ⟨hle, hpairwise⟩ := ih fun x hx => hrange x (List.mem_append_left _ hx)
      obtain ⟨h₁, h₂, h₃, -, -⟩ := hr.mono hscale (h.isWord hscale hlow)
      have hin := hrange r (List.mem_append_right _ (List.mem_singleton_self r))
      refine ⟨fun x hx => ?_, ?_⟩
      · rcases List.mem_append.mp hx with hx | hx
        · exact (hle x hx).trans (h₁.trans (h₂.trans h₃))
        · rw [List.mem_singleton.mp hx]
          exact hin.2
      · rw [List.map_append, List.pairwise_append]
        refine ⟨hpairwise, List.pairwise_singleton .., fun x hx y hy => ?_⟩
        obtain ⟨x', hx', rfl⟩ := List.mem_map.mp hx
        rw [List.map_singleton, List.mem_singleton] at hy
        rw [hy]
        exact (hle x' hx').trans hin.1

/-- The embassy time runs forward in every run where no carry goes into the high half between the
loads of a call. Where it runs forward, such a carry happens only in calls that take 2^32 units or
more. -/
theorem now_forward_iff (hscale : 0 < mtimeScale) (hlow : IsWord c₀.machine.hart.csrMtime)
    (h : NowCalls cfg mtimeScale c₀ calls c) :
    ((∀ r ∈ calls, r.NoCarry) → TimeForward calls) ∧
      (TimeForward calls → ∀ r ∈ calls, r.finish.mtime < r.atLow.mtime + 2 ^ 32 → r.NoCarry) := by
  have hruns := h.runs hscale hlow
  constructor
  · intro hcarry
    have hrange : ∀ r ∈ calls, r.InRange :=
      fun r hr => (hruns r hr).1.inRange hscale (hruns r hr).2 (hcarry r hr)
    exact ⟨hrange, (h.forward hscale hlow hrange).2⟩
  · exact fun hforward r hr => (hruns r hr).1.noCarry hscale (hruns r hr).2 (hforward.1 r hr)

/-! ## Calls -/

theorem machineMode {c : Clock} (h : c.machine.hart.effectivePrivilegeMode = 0b11) :
    ¬c.machine.hart.effectivePrivilegeMode < 0b11 := by
  rw [h]
  decide

theorem advances_tick {c : Clock} {time : ℚ} (hrunning : c.machine.point.isRunning = true)
    (htime : c.lastMtimeUpdate ≤ time) (hmtime : c.mtime ≤ (c.tick cfg mtimeScale time).mtime) :
    NowCall.Advances cfg mtimeScale c (c.tick cfg mtimeScale time) := by
  refine ⟨[] ++ [(c, time)], .tick time .init hrunning htime, fun p hp => ?_⟩
  rw [List.mem_singleton.mp hp]
  exact hmtime

theorem advances_refl (c : Clock) : NowCall.Advances cfg mtimeScale c c :=
  ⟨[], .init, fun _ hp => absurd hp List.not_mem_nil⟩

/-- Ticks one millisecond apart. The first carry into the high half falls between the clocks 2 and
3. -/
def clockAt : Nat → Clock
  | 0 => resetClock.tick (smallBuild fun _ _ => none) 1000 4294965
  | n + 1 => (clockAt n).tick (smallBuild fun _ _ => none) 1000 (4294966 + n)

/-- A call between these ticks. -/
def callAt (start low high finish : Nat) : NowCall :=
  { start := clockAt start, atLow := clockAt low, atHigh := clockAt high, finish := clockAt finish
    low := (clockAt low).machine.hart.csrMtime, high := (clockAt high).machine.hart.csrMtimeh }

theorem clockAt_machine (n : Nat) : (clockAt n).machine.point.isRunning = true ∧
    (clockAt n).machine.hart.effectivePrivilegeMode = 0b11 := by
  have htick (c : Clock) (time : ℚ)
      (h : c.machine.point.isRunning = true ∧ c.machine.hart.effectivePrivilegeMode = 0b11) :
      (c.tick (smallBuild fun _ _ => none) 1000 time).machine.point.isRunning = true ∧
        (c.tick (smallBuild fun _ _ => none) 1000 time).machine.hart.effectivePrivilegeMode = 0b11 := by
    rw [Clock.tick, Machine.apply, if_pos h.1]
    exact h
  induction n with
  | zero => exact htick _ _ ⟨rfl, rfl⟩
  | succ n ih => exact htick _ _ ih

theorem clockAt_reset : NowCall.Advances (smallBuild fun _ _ => none) 1000 resetClock (clockAt 0) :=
  advances_tick rfl (by decide +kernel) (by decide +kernel)

theorem clockAt_succ :
    ∀ n < 4, NowCall.Advances (smallBuild fun _ _ => none) 1000 (clockAt n) (clockAt (n + 1)) := by
  have htime : ∀ n < 4, (clockAt n).lastMtimeUpdate ≤ 4294966 + n ∧
      (clockAt n).mtime ≤ (clockAt (n + 1)).mtime := by
    decide +kernel
  exact fun n hn => advances_tick (clockAt_machine n).1 (htime n hn).1 (htime n hn).2

theorem callAt_runs {start low high finish : Nat}
    (hlow : NowCall.Advances (smallBuild fun _ _ => none) 1000 (clockAt start) (clockAt low))
    (hhigh : NowCall.Advances (smallBuild fun _ _ => none) 1000 (clockAt low) (clockAt high))
    (hfinish : NowCall.Advances (smallBuild fun _ _ => none) 1000 (clockAt high) (clockAt finish)) :
    (callAt start low high finish).Runs (smallBuild fun _ _ => none) 1000 where
  beforeLow := hlow
  low :=
    ⟨illegalOp, _, (loadWord_timer _ (Or.inl rfl) _ _).trans
      (if_neg (machineMode (clockAt_machine low).2))⟩
  beforeHigh := hhigh
  high :=
    ⟨illegalOp, _, (loadWord_timer _ (Or.inr rfl) _ _).trans
      (if_neg (machineMode (clockAt_machine high).2))⟩
  beforeEnd := hfinish

/-- A tick before each load of the first call, a carry at its end, and a tick in the second call. -/
theorem now_forward_iff_ticks : TimeForward [callAt 0 1 2 3, callAt 3 3 4 4] := by
  have hfirst : (callAt 0 1 2 3).Runs (smallBuild fun _ _ => none) 1000 :=
    callAt_runs (clockAt_succ 0 (by decide)) (clockAt_succ 1 (by decide)) (clockAt_succ 2 (by decide))
  have hsecond : (callAt 3 3 4 4).Runs (smallBuild fun _ _ => none) 1000 :=
    callAt_runs (advances_refl _) (clockAt_succ 3 (by decide)) (advances_refl _)
  have hruns : NowCalls (smallBuild fun _ _ => none) 1000 resetClock
      [callAt 0 1 2 3, callAt 3 3 4 4] (clockAt 4) :=
    .call (.call (.ticks .init clockAt_reset) hfirst) hsecond
  have hcarry : ∀ r ∈ [callAt 0 1 2 3, callAt 3 3 4 4], r.NoCarry := by
    have hhalves : (clockAt 2).machine.hart.csrMtimeh = (clockAt 1).machine.hart.csrMtimeh ∧
        (clockAt 4).machine.hart.csrMtimeh = (clockAt 3).machine.hart.csrMtimeh := by decide +kernel
    intro r hr
    rcases List.mem_pair.mp hr with rfl | rfl
    · exact hhalves.1
    · exact hhalves.2
  exact (now_forward_iff (by norm_num) resetClock_csrMtime hruns).1 hcarry

/-- A tick with a carry between the loads makes the first time too large by 2^32 - 1000, and the
second one is smaller. -/
theorem now_backwards :
    NowCalls (smallBuild fun _ _ => none) 1000 resetClock [callAt 2 2 3 3, callAt 3 3 3 3] (clockAt 3) ∧
      (callAt 2 2 3 3).value = 8589934296 ∧ (clockAt 3).mtime = 4294968000 ∧
      (callAt 3 3 3 3).value = 4294968000 ∧
      ¬TimeForward [callAt 2 2 3 3, callAt 3 3 3 3] := by
  have hfirst : (callAt 2 2 3 3).Runs (smallBuild fun _ _ => none) 1000 :=
    callAt_runs (advances_refl _) (clockAt_succ 2 (by decide)) (advances_refl _)
  have hsecond : (callAt 3 3 3 3).Runs (smallBuild fun _ _ => none) 1000 :=
    callAt_runs (advances_refl _) (advances_refl _) (advances_refl _)
  have hruns : NowCalls (smallBuild fun _ _ => none) 1000 resetClock ([callAt 2 2 3 3] ++
      [callAt 3 3 3 3]) (clockAt 3) :=
    .call (.call (.ticks (.ticks (.ticks .init clockAt_reset) (clockAt_succ 0 (by decide)))
      (clockAt_succ 1 (by decide)))
      hfirst) hsecond
  have hvalues : (callAt 2 2 3 3).value = 8589934296 ∧ (clockAt 3).mtime = 4294968000 ∧
      (callAt 3 3 3 3).value = 4294968000 := by decide +kernel
  refine ⟨hruns, hvalues.1, hvalues.2.1, hvalues.2.2, fun h => ?_⟩
  have hrange : (callAt 2 2 3 3).value ≤ (clockAt 3).mtime := (h.1 (callAt 2 2 3 3) (by simp)).2
  rw [hvalues.1, hvalues.2.1] at hrange
  exact absurd hrange (by decide)

end Mlogv32.Rust
