import Mathlib

/-!
# Interrupts of the privileged architecture

Which pending and enabled interrupt a hart takes, and into which mode. An interrupt that is not
delegated goes to M-mode before any delegated one.
-/

namespace Mlogv32.Isa

inductive Mode where
  | user | supervisor | machine
  deriving DecidableEq, Repr

inductive Interrupt where
  | mei | mti | sei | ssi | sti
  deriving DecidableEq, Repr

namespace Interrupt

/-- The number of an interrupt in mip, mie, mideleg and xcause. -/
def bit : Interrupt → Nat
  | mei => 11
  | mti => 7
  | sei => 9
  | ssi => 1
  | sti => 5

/-- The interrupts in the order of their priority. -/
def byPriority : List Interrupt := [mei, mti, sei, ssi, sti]

/-- The first interrupt of a set. -/
def highest (p : Interrupt → Bool) : Option Interrupt := byPriority.find? p

/-- The interrupt that is taken, with the mode it is taken into. `mie` and `sie` are the enable bits
of mstatus, and `pending` tells which interrupts are set in both mip and mie. -/
def taken (mode : Mode) (mie sie : Bool) (pending delegated : Interrupt → Bool) :
    Option (Interrupt × Mode) :=
  let machine := if mode ≠ .machine || mie then highest fun i => pending i && !delegated i else none
  let supervisor := if mode = .user || (mode = .supervisor && sie) then
    highest fun i => pending i && delegated i else none
  match machine with
  | some i => some (i, .machine)
  | none => supervisor.map fun i => (i, .supervisor)

/-! ## The highest interrupt -/

theorem highest_eq_none {p : Interrupt → Bool} : highest p = none ↔ ∀ i, p i = false := by
  constructor
  · intro h i
    have hi := List.find?_eq_none.mp h i (by cases i <;> decide)
    simpa using hi
  · intro h
    exact List.find?_eq_none.mpr fun i _ => by simp [h i]

theorem highest_mem {p : Interrupt → Bool} {i : Interrupt} (h : highest p = some i) : p i = true :=
  List.find?_some h

theorem highest_congr {p q : Interrupt → Bool} (h : ∀ i, p i = q i) : highest p = highest q := by
  rw [funext h]

/-- The highest interrupt of a smaller set that still has it. -/
theorem highest_of_subset {p q : Interrupt → Bool} (hpq : ∀ i, q i → p i) {i : Interrupt}
    (h : highest p = some i) (hi : q i) : highest q = some i := by
  obtain ⟨-, before, after, hlist, hbefore⟩ := List.find?_eq_some_iff_append.mp h
  refine List.find?_eq_some_iff_append.mpr ⟨hi, before, after, hlist, fun j hj => ?_⟩
  cases hq : q j with
  | false => rfl
  | true => exact absurd (hpq j hq) (by simpa using hbefore j hj)

/-! ## The interrupt that is taken -/

theorem taken_machine (mie sie : Bool) (pending delegated : Interrupt → Bool) :
    taken .machine mie sie pending delegated =
      (highest fun i => mie && (pending i && !delegated i)).map fun i => (i, .machine) := by
  cases mie with
  | false =>
      have hnone : (highest fun i => false && (pending i && !delegated i)) = none :=
        highest_eq_none.mpr fun _ => rfl
      rw [hnone]
      rfl
  | true =>
      simp only [taken, Bool.true_and]
      cases highest fun i => pending i && !delegated i <;> rfl

/-- Below M-mode with interrupts enabled, the highest pending interrupt is taken, unless it is
delegated and another one is not. -/
theorem taken_below {mode : Mode} {mie sie : Bool} {pending delegated : Interrupt → Bool}
    (hmode : mode = .user ∨ (mode = .supervisor ∧ sie = true))
    (h : ∀ i j, highest pending = some i → delegated i = true → pending j = true → delegated j = true) :
    taken mode mie sie pending delegated =
      (highest pending).map fun i => (i, if delegated i then .supervisor else .machine) := by
  have hm : (decide (mode ≠ .machine) || mie) = true := by
    rcases hmode with rfl | ⟨rfl, -⟩ <;> rfl
  have hs : (decide (mode = .user) || (decide (mode = .supervisor) && sie)) = true := by
    rcases hmode with rfl | ⟨rfl, rfl⟩ <;> rfl
  simp only [taken, hm, hs, if_true]
  cases hp : highest pending with
  | none =>
      have hall := highest_eq_none.mp hp
      rw [highest_eq_none.mpr fun i => by rw [hall i, Bool.false_and],
        highest_eq_none.mpr fun i => by rw [hall i, Bool.false_and]]
      rfl
  | some i =>
      have hi := highest_mem hp
      cases hd : delegated i with
      | false =>
          rw [highest_of_subset (fun j hj => (Bool.and_eq_true_iff.mp hj).1) hp (by rw [hi, hd]; rfl)]
          simp [hd]
      | true =>
          have hall (j : Interrupt) : (pending j && !delegated j) = false := by
            cases hj : pending j with
            | false => rfl
            | true => rw [h i j hp hd hj]; rfl
          rw [highest_eq_none.mpr hall,
            highest_of_subset (fun j hj => (Bool.and_eq_true_iff.mp hj).1) hp (by rw [hi, hd]; rfl)]
          simp [hd]

end Interrupt

end Mlogv32.Isa
