import Mathlib

/-!
# Runs of a transition system

The states that a system reaches when every event meets a guard, and the rule that proves an
invariant of them.
-/

namespace Mlogv32.Logic

variable {σ ε : Type*}

/-- The states after a finite number of events, each of them allowed in the state it happens in. -/
inductive Reachable (init : σ → Prop) (guard : σ → ε → Prop) (next : σ → ε → σ) : σ → Prop
  | init {s : σ} (h : init s) : Reachable init guard next s
  | next {s : σ} {e : ε} (h : Reachable init guard next s) (hg : guard s e) :
      Reachable init guard next (next s e)

variable {init : σ → Prop} {guard guard' : σ → ε → Prop} {next : σ → ε → σ}

/-- What holds at first and is kept by every allowed event holds in every state reached. -/
theorem Reachable.invariant {I : σ → Prop} (hinit : ∀ s, init s → I s)
    (hnext : ∀ s e, I s → guard s e → I (next s e)) {s : σ} (h : Reachable init guard next s) :
    I s := by
  induction h with
  | init h => exact hinit _ h
  | next _ hg ih => exact hnext _ _ ih hg

theorem Reachable.mono (hguard : ∀ s e, guard s e → guard' s e) {s : σ}
    (h : Reachable init guard next s) : Reachable init guard' next s := by
  induction h with
  | init h => exact .init h
  | next _ hg ih => exact .next ih (hguard _ _ hg)

/-- A list of events, all allowed, leads to a reachable state. -/
theorem Reachable.foldl {s : σ} (h : Reachable init guard next s) (es : List ε)
    (hes : ∀ t, ∀ e ∈ es, guard t e) : Reachable init guard next (es.foldl next s) := by
  induction es generalizing s with
  | nil => exact h
  | cons e es ih =>
      exact ih (.next h (hes s e List.mem_cons_self)) fun t e' he' =>
        hes t e' (List.mem_cons_of_mem e he')

/-- A list of events, each allowed where it happens, leads to a reachable state. -/
theorem Reachable.run {s : σ} (h : Reachable init guard next s) (es : List ε)
    (hes : ∀ i, ∀ hi : i < es.length, guard ((es.take i).foldl next s) es[i]) :
    Reachable init guard next (es.foldl next s) := by
  induction es generalizing s with
  | nil => exact h
  | cons e es ih =>
      refine ih (h.next (hes 0 (Nat.zero_lt_succ _))) fun i hi => ?_
      exact hes (i + 1) (Nat.succ_lt_succ hi)

end Mlogv32.Logic
