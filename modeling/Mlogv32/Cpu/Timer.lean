import Mlogv32.Cpu.Controller

/-!
# The machine timer

The controller keeps the time of its last update of mtime. A tick reads the time in milliseconds,
and adds the time since then in units of mtime. Each operation rounds its result to a double.
-/

namespace Mlogv32.Cpu
open Mlog

structure Clock where
  machine : Machine
  lastMtimeUpdate : ℚ

/-- The units that a tick at `time` adds, where `mtimeScale` is the number of units in a
millisecond. -/
def Clock.delta (mtimeScale time : ℚ) (c : Clock) : ℚ :=
  number (number (time - c.lastMtimeUpdate) * mtimeScale)

/-- A tick of the controller at `time`. -/
def Clock.tick (cfg : Config) (mtimeScale time : ℚ) (c : Clock) : Clock :=
  { machine := c.machine.apply cfg (.tick (c.delta mtimeScale time).toNNRat), lastMtimeUpdate := time }

/-- An event other than a tick. -/
def Clock.other (cfg : Config) (e : Event) (c : Clock) : Clock :=
  { c with machine := c.machine.apply cfg e }

/-- The event is a tick or a reset of the controller. -/
def Event.setsMtime : Event → Bool
  | .tick _ | .reset => true
  | _ => false

/-- mtime with its high half. -/
def Clock.mtime (c : Clock) : Int := c.machine.hart.csrMtimeh * 2 ^ 32 + c.machine.hart.csrMtime

/-- A run from `c₀` with its ticks: the clock before each of them and its time. The time does not go
back, and nothing between the ticks changes mtime. -/
inductive Ticks (cfg : Config) (mtimeScale : ℚ) (c₀ : Clock) : List (Clock × ℚ) → Clock → Prop where
  | init : Ticks cfg mtimeScale c₀ [] c₀
  | tick {ticks : List (Clock × ℚ)} {c : Clock} (time : ℚ) (h : Ticks cfg mtimeScale c₀ ticks c)
      (hrunning : c.machine.point.isRunning = true) (htime : c.lastMtimeUpdate ≤ time) :
      Ticks cfg mtimeScale c₀ (ticks ++ [(c, time)]) (c.tick cfg mtimeScale time)
  | other {ticks : List (Clock × ℚ)} {c : Clock} (e : Event) (h : Ticks cfg mtimeScale c₀ ticks c)
      (he : e.setsMtime = false)
      (hmtime : (c.other cfg e).machine.hart.csrMtime = c.machine.hart.csrMtime)
      (hmtimeh : (c.other cfg e).machine.hart.csrMtimeh = c.machine.hart.csrMtimeh) :
      Ticks cfg mtimeScale c₀ ticks (c.other cfg e)

/-- What the operations of a tick lose, in units of mtime: `sub` and `mul`, `add`, `floor`, `shr`,
and the `add` to the high half. A result that is rounded up counts negatively. -/
def Clock.tickLoss (mtimeScale time : ℚ) (c : Clock) : ℚ :=
  let delta := c.delta mtimeScale time
  let mtime := number (c.machine.hart.csrMtime + delta)
  let overflow := opShr (saturate ⌊mtime⌋) 32
  let mtimeh := c.machine.hart.csrMtimeh + overflow
  ((time - c.lastMtimeUpdate) * mtimeScale - delta) + (c.machine.hart.csrMtime + delta - mtime) +
    Int.fract mtime +
    2 ^ 32 * ((⌊mtime⌋ / 2 ^ 32 - overflow) + (mtimeh - toDouble mtimeh) : Int)

/-- What the ticks of a run lose together. -/
def totalLoss (mtimeScale : ℚ) (ticks : List (Clock × ℚ)) : ℚ :=
  (ticks.map fun p => p.1.tickLoss mtimeScale p.2).sum

end Mlogv32.Cpu
