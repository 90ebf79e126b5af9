import Mathlib

/-!
# Simulation with stuttering

An implementation takes one or more of its own steps for a step of its specification. `StepsTo`
counts the steps of the specification, and `simulates` is the rule for runs, for as long as the
specification can go on. If a rank grows at each step that the specification does not see, the
specification keeps pace with the work.
-/

namespace Mlogv32.Logic

/-- A number of steps of a relation. -/
inductive StepsTo {τ : Type*} (step : τ → τ → Prop) (t : τ) : Nat → τ → Prop
  | zero : StepsTo step t 0 t
  | succ {k : Nat} {u v : τ} (h : StepsTo step t k u) (hstep : step u v) : StepsTo step t (k + 1) v

variable {σ τ ε : Type*} {step : τ → τ → Prop} {t u v : τ}

theorem StepsTo.cons {k : Nat} (h : step t u) (h' : StepsTo step u k v) : StepsTo step t (k + 1) v := by
  induction h' with
  | zero => exact .succ .zero h
  | succ _ hstep ih => exact .succ ih hstep

/-- The work that the events of a run do. -/
def totalWork (work : ε → Nat) (es : List ε) : Nat := (es.map work).sum

/-- The specification can go on for `n` steps, from every state that it can be in. -/
def Progresses (step : τ → τ → Prop) (t : τ) (n : Nat) : Prop :=
  ∀ k u, k < n → StepsTo step t k u → ∃ v, step u v

theorem Progresses.tail {n : Nat} (h : Progresses step t (n + 1)) (hstep : step t u) :
    Progresses step u n :=
  fun k v hk hsteps => h (k + 1) v (Nat.succ_lt_succ hk) (.cons hstep hsteps)

/-- If the specification can go on, each event of the implementation is a step of it or is not seen
by it, and takes at most `pace` of work. Then a run of the implementation is one of the
specification, of as many steps as its work asks for, up to the event after which the specification
has made `n` steps. -/
theorem simulates {next : σ → ε → σ} {guard : ε → Prop} {R : σ → τ → Prop}
    {work : ε → Nat} {rank : σ → Nat}
    {pace : Nat}
    (hnext : ∀ s e t, R s t → guard e → (∃ u, step t u) →
      (R (next s e) t ∧ rank s + work e ≤ rank (next s e)) ∨
        ∃ u, step t u ∧ R (next s e) u ∧ rank s + work e ≤ rank (next s e) + pace)
    {n : Nat} {s : σ} (hs : R s t) (hprogress : Progresses step t n) (es : List ε)
    (hes : ∀ e ∈ es, guard e) :
    ∃ i k u, i ≤ es.length ∧ k ≤ n ∧ (k < n → i = es.length) ∧ StepsTo step t k u ∧
      R ((es.take i).foldl next s) u ∧
      rank s + totalWork work (es.take i) ≤ rank ((es.take i).foldl next s) + pace * k := by
  induction es generalizing s t n with
  | nil => exact ⟨0, 0, t, le_rfl, n.zero_le, fun _ => rfl, .zero, hs, by simp [totalWork]⟩
  | cons e es ih =>
      cases n with
      | zero => exact ⟨0, 0, t, Nat.zero_le _, le_rfl, fun h => absurd h (by omega),
          .zero, hs, by simp [totalWork]⟩
      | succ n =>
          have hes' : ∀ e ∈ es, guard e := fun e he => hes e (List.mem_cons_of_mem _ he)
          have hwork (i : Nat) : totalWork work ((e :: es).take (i + 1)) = work e +
              totalWork work (es.take i) := by
            simp [totalWork]
          have hcan := hprogress 0 t n.zero_lt_succ .zero
          rcases hnext s e t hs (hes e List.mem_cons_self) hcan with
            ⟨hs', hrank⟩ | ⟨u, hstep, hs', hrank⟩
          · obtain ⟨i, k, v, hi, hk, hend, hsteps, hR, hpace⟩ := ih hs' hprogress hes'
            refine ⟨i + 1, k, v, Nat.succ_le_succ hi, hk, fun h =>
              congrArg Nat.succ (hend h), hsteps, hR, ?_⟩
            rw [hwork]
            change _ ≤ rank ((es.take i).foldl next (next s e)) + _
            omega
          · obtain ⟨i, k, v, hi, hk, hend, hsteps, hR, hpace⟩ := ih hs' (hprogress.tail hstep) hes'
            refine ⟨i + 1, k + 1, v, Nat.succ_le_succ hi, Nat.succ_le_succ hk,
              fun h => congrArg Nat.succ (hend (Nat.lt_of_succ_lt_succ h)), .cons hstep hsteps, hR, ?_⟩
            rw [hwork, Nat.mul_succ]
            change _ ≤ rank ((es.take i).foldl next (next s e)) + _
            omega

end Mlogv32.Logic
