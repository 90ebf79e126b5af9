import Mlogv32.Cpu.Timer

/-!
# The time driver for embassy

`now` reads the 64-bit `mtime` of the machine timer with two word loads, the low half first. The
controller updates both halves in one tick.
-/

namespace Mlogv32.Rust
open Cpu

/-- A call of `now`: the clock at its start, at its two loads and at its end, and the words that it
loads. -/
structure NowCall where
  start : Clock
  atLow : Clock
  atHigh : Clock
  finish : Clock
  low : Int
  high : Int

namespace NowCall

/-- The returned time. -/
def value (r : NowCall) : Int := r.high * 2 ^ 32 + r.low

/-- A run whose ticks do not take mtime back. -/
def Advances (cfg : Config) (mtimeScale : ℚ) (c c' : Clock) : Prop :=
  ∃ ticks, Ticks cfg mtimeScale c ticks c' ∧ ∀ p ∈ ticks, p.1.mtime ≤ (p.1.tick cfg mtimeScale p.2).mtime

/-- The loads go to the registers of the timer, and the ticks happen in between. -/
structure Runs (cfg : Config) (mtimeScale : ℚ) (r : NowCall) : Prop where
  beforeLow : Advances cfg mtimeScale r.start r.atLow
  low : ∃ trap s, loadWord cfg mmioStart trap r.atLow.machine.hart = .ok r.low s
  beforeHigh : Advances cfg mtimeScale r.atLow r.atHigh
  high : ∃ trap s, loadWord cfg (mmioStart + 4) trap r.atHigh.machine.hart = .ok r.high s
  beforeEnd : Advances cfg mtimeScale r.atHigh r.finish

/-- No carry goes into the high half between the two loads. -/
def NoCarry (r : NowCall) : Prop := r.atHigh.machine.hart.csrMtimeh = r.atLow.machine.hart.csrMtimeh

end NowCall

/-- A run from `c₀` with calls of `now`, one after the other. -/
inductive NowCalls (cfg : Config) (mtimeScale : ℚ) (c₀ : Clock) : List NowCall → Clock → Prop where
  | init : NowCalls cfg mtimeScale c₀ [] c₀
  | ticks {calls : List NowCall} {c c' : Clock} (h : NowCalls cfg mtimeScale c₀ calls c)
      (ht : NowCall.Advances cfg mtimeScale c c') : NowCalls cfg mtimeScale c₀ calls c'
  | call {calls : List NowCall} {r : NowCall} (h : NowCalls cfg mtimeScale c₀ calls r.start)
      (hr : r.Runs cfg mtimeScale) : NowCalls cfg mtimeScale c₀ (calls ++ [r]) r.finish

end Mlogv32.Rust
