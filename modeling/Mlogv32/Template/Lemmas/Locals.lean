import Mlogv32.Logic.Wp
import Mlogv32.Template.Locals

/-!
# Operations on local variables

What each operation does to the cache and the free list, and the invariant that all of them keep.
-/

namespace Mlogv32.Template
open Python Logic

/-! ## Invariant -/

namespace Locals

/-- Live names have indices of their own, and a freed index waits below the next one until it is
used again. -/
structure Inv (s : Locals) : Prop where
  live_inj : ∀ n m i, s.localVariableCache n = some i → s.localVariableCache m = some i → n = m
  live_not_freed : ∀ n i, s.localVariableCache n = some i → i ∉ s.freedLocalVariables
  live_lt : ∀ n i, s.localVariableCache n = some i → i < s.localVariableIndex
  freed_nodup : s.freedLocalVariables.Nodup
  freed_lt : ∀ i ∈ s.freedLocalVariables, i < s.localVariableIndex
  live_handedOut : ∀ n i, s.localVariableCache n = some i → i ∈ s.handedOut
  handedOut_le : ∀ i ∈ s.handedOut, i ≤ s.largestLocalVariable

/-- The index is neither live nor freed nor to be given out next. -/
structure Unused (i : Int) (s : Locals) : Prop where
  not_live : ∀ n, s.localVariableCache n ≠ some i
  not_freed : i ∉ s.freedLocalVariables
  lt : i < s.localVariableIndex

/-- A name gets an index. -/
def bind (s : Locals) (name : String) (i : Int) : Locals :=
  { s with
    localVariableCache := Function.update s.localVariableCache name (some i)
    largestLocalVariable := max i s.largestLocalVariable
    handedOut := i :: s.handedOut }

/-- The state after `reset_locals`. -/
def reset (s : Locals) (i : Int) : Locals :=
  { s with localVariableIndex := i, localVariableCache := fun _ => none, freedLocalVariables := [] }

variable {s : Locals} {i : Int} {name : String}

theorem inv_extend : Inv extend where
  live_inj _ _ _ h := by cases h
  live_not_freed _ _ h := by cases h
  live_lt _ _ h := by cases h
  freed_nodup := List.nodup_nil
  freed_lt _ h := by cases h
  live_handedOut _ _ h := by cases h
  handedOut_le _ h := by cases h

theorem Inv.reset (h : Inv s) (i : Int) : Inv (s.reset i) where
  live_inj _ _ _ h := by cases h
  live_not_freed _ _ h := by cases h
  live_lt _ _ h := by cases h
  freed_nodup := List.nodup_nil
  freed_lt _ h := by cases h
  live_handedOut _ _ h := by cases h
  handedOut_le := h.handedOut_le

theorem update_some_iff {c : String → Option Int} {n : String} {j : Int} :
    Function.update c name (some i) n = some j ↔ (n = name ∧ i = j) ∨ (n ≠ name ∧ c n = some j) := by
  by_cases hn : n = name
  · subst hn
    simp
  · simp [hn]

theorem Inv.bind (h : Inv s) (hi : Unused i s) (name : String) : Inv (s.bind name i) where
  live_inj n m j hn hm := by
    rcases update_some_iff.mp hn with ⟨rfl, rfl⟩ | ⟨_, hn'⟩
    · rcases update_some_iff.mp hm with ⟨rfl, _⟩ | ⟨_, hm'⟩
      · rfl
      · exact absurd hm' (hi.not_live m)
    · rcases update_some_iff.mp hm with ⟨rfl, rfl⟩ | ⟨_, hm'⟩
      · exact absurd hn' (hi.not_live n)
      · exact h.live_inj n m j hn' hm'
  live_not_freed n j hn := by
    rcases update_some_iff.mp hn with ⟨_, rfl⟩ | ⟨_, hn⟩
    · exact hi.not_freed
    · exact h.live_not_freed n j hn
  live_lt n j hn := by
    rcases update_some_iff.mp hn with ⟨_, rfl⟩ | ⟨_, hn⟩
    · exact hi.lt
    · exact h.live_lt n j hn
  freed_nodup := h.freed_nodup
  freed_lt := h.freed_lt
  live_handedOut n j hn := by
    rcases update_some_iff.mp hn with ⟨_, rfl⟩ | ⟨_, hn⟩
    · exact List.mem_cons_self
    · exact List.mem_cons_of_mem _ (h.live_handedOut n j hn)
  handedOut_le j hj := by
    rcases List.mem_cons.mp hj with rfl | hj
    · exact le_max_left _ _
    · exact (h.handedOut_le j hj).trans (le_max_right _ _)

theorem Inv.again (h : Inv s) (hname : s.localVariableCache name = some i) :
    Inv { s with handedOut := i :: s.handedOut } where
  live_inj := h.live_inj
  live_not_freed := h.live_not_freed
  live_lt := h.live_lt
  freed_nodup := h.freed_nodup
  freed_lt := h.freed_lt
  live_handedOut n j hn := List.mem_cons_of_mem _ (h.live_handedOut n j hn)
  handedOut_le j hj := by
    rcases List.mem_cons.mp hj with rfl | hj
    · exact h.handedOut_le j (h.live_handedOut name j hname)
    · exact h.handedOut_le j hj

theorem Inv.takeFreed (h : Inv s) (hlast : s.freedLocalVariables.getLast? = some i) :
    Inv { s with freedLocalVariables := s.freedLocalVariables.dropLast } ∧
      Unused i { s with freedLocalVariables := s.freedLocalVariables.dropLast } := by
  have hsplit : s.freedLocalVariables = s.freedLocalVariables.dropLast ++ [i] :=
    (List.dropLast_append_getLast? i hlast).symm
  have hmem : i ∈ s.freedLocalVariables := List.mem_of_getLast? hlast
  have hnodup := h.freed_nodup
  rw [hsplit, List.nodup_append] at hnodup
  refine ⟨⟨h.live_inj, fun n j hn hj => ?_, h.live_lt, hnodup.1, fun j hj =>
    ?_, h.live_handedOut, h.handedOut_le⟩,
    fun n hn => h.live_not_freed n i hn hmem, fun hi => hnodup.2.2 i hi i (by simp) rfl,
    h.freed_lt i hmem⟩
  · exact h.live_not_freed n j hn (List.dropLast_subset _ hj)
  · exact h.freed_lt j (List.dropLast_subset _ hj)

theorem Inv.takeNext (h : Inv s) :
    Inv { s with localVariableIndex := s.localVariableIndex + 1 } ∧
      Unused s.localVariableIndex { s with localVariableIndex := s.localVariableIndex + 1 } := by
  refine ⟨⟨h.live_inj, h.live_not_freed, fun n j hn => ?_, h.freed_nodup,
    fun j hj => ?_, h.live_handedOut,
    h.handedOut_le⟩, fun n hn => ?_, fun hi => ?_, lt_add_one _⟩
  · exact (h.live_lt n j hn).trans (lt_add_one _)
  · exact (h.freed_lt j hj).trans (lt_add_one _)
  · exact lt_irrefl _ (h.live_lt n _ hn)
  · exact lt_irrefl _ (h.freed_lt _ hi)

theorem update_none_eq_some {c : String → Option Int} {n : String} {j : Int}
    (h : Function.update c name none n = some j) : n ≠ name ∧ c n = some j := by
  by_cases hn : n = name
  · subst hn
    simp at h
  · exact ⟨hn, by simpa [hn] using h⟩

theorem Inv.free (h : Inv s) (hname : s.localVariableCache name = some i) :
    Inv { s with
      localVariableCache := Function.update s.localVariableCache name none
      freedLocalVariables := s.freedLocalVariables ++ [i] } where
  live_inj n m j hn hm := h.live_inj n m j (update_none_eq_some hn).2 (update_none_eq_some hm).2
  live_not_freed n j hn hj := by
    obtain ⟨hne, hlive⟩ := update_none_eq_some hn
    rcases List.mem_append.mp hj with hj | hj
    · exact h.live_not_freed n j hlive hj
    · obtain rfl := List.mem_singleton.mp hj
      exact hne (h.live_inj n name j hlive hname)
  live_lt n j hn := h.live_lt n j (update_none_eq_some hn).2
  freed_nodup := by
    refine h.freed_nodup.append (List.nodup_singleton i) ?_
    exact List.disjoint_singleton.mpr (h.live_not_freed name i hname)
  freed_lt j hj := by
    rcases List.mem_append.mp hj with hj | hj
    · exact h.freed_lt j hj
    · obtain rfl := List.mem_singleton.mp hj
      exact h.live_lt name j hname
  live_handedOut n j hn := h.live_handedOut n j (update_none_eq_some hn).2
  handedOut_le := h.handedOut_le

theorem Inv.sort (h : Inv s) :
    Inv { s with freedLocalVariables := s.freedLocalVariables.insertionSort (· ≥ ·) } := by
  have hperm := List.perm_insertionSort (· ≥ ·) s.freedLocalVariables
  exact ⟨h.live_inj, fun n j hn hj => h.live_not_freed n j hn (hperm.mem_iff.mp hj), h.live_lt,
    hperm.nodup_iff.mpr h.freed_nodup, fun j hj => h.freed_lt j (hperm.mem_iff.mp hj), h.live_handedOut,
    h.handedOut_le⟩

end Locals

/-! ## Operations -/

open Locals

/-- The exception is one that a template can cause, and not a failed assertion. -/
def IsValueError : Exception → Prop
  | .valueError _ => True
  | _ => False

variable {s : Locals}

theorem takeIndex_inv (h : Inv s) :
    wp takeIndex (fun i s' => Inv s' ∧ Unused i s' ∧ s'.localVariableCache = s.localVariableCache)
      (fun _ _ => False) s := by
  simp only [takeIndex, wp_bind, wp_get]
  split
  · rename_i i hlast
    exact ⟨(h.takeFreed hlast).1, (h.takeFreed hlast).2, rfl⟩
  · exact ⟨h.takeNext.1, h.takeNext.2, rfl⟩

theorem localVariable_str_maintains (name : String) (declare : Bool) :
    Maintains Inv IsValueError (localVariable (.str name) declare) := by
  intro s h
  simp only [localVariable, wp_bind, wp_get]
  split
  · rename_i i hname
    exact h.again hname
  · rw [wp_bind]
    refine wp_mono (takeIndex_inv h) (fun i s' hs' => ?_) fun _ _ h => h.elim
    obtain ⟨hinv, hunused, -⟩ := hs'
    simp only [wp_bind, wp_ite, wp_throw, wp_pure, wp_modify, handOut]
    exact ⟨fun _ => trivial, fun _ => hinv.bind hunused name⟩

theorem localVariable_none_maintains (declare : Bool) :
    Maintains Inv IsValueError (localVariable .none declare) := by
  intro s h
  simp only [localVariable, wp_bind]
  exact wp_mono (takeIndex_inv h) (fun i s' hs' => hs'.1) fun _ _ h => h.elim

theorem resetLocals_maintains (i : Int) : Maintains Inv IsValueError (resetLocals i) := by
  intro s h
  simp only [resetLocals, wp_bind, wp_ite, wp_throw, wp_modify]
  exact ⟨fun _ => trivial, fun _ => h.reset i⟩

theorem declareName_maintains (name : String) : Maintains Inv IsValueError (declareName name) := by
  intro s h
  simp only [declareName, wp_bind, wp_ite, wp_throw, wp_pure]
  exact ⟨fun _ => trivial, fun _ => localVariable_str_maintains _ true s h⟩

theorem freeName_maintains (name : String) : Maintains Inv IsValueError (freeName name) := by
  intro s h
  simp only [freeName, wp_bind, wp_ite, wp_throw, wp_get]
  refine ⟨fun _ => trivial, fun _ => ?_⟩
  split
  · exact trivial
  · rename_i i hname
    simp only [wp_bind, wp_modify, wp_get, wp_ite, wp_throw]
    exact ⟨fun hi => absurd hi (h.live_not_freed _ _ hname), fun _ => h.free hname⟩

theorem sortFreed_maintains : Maintains Inv IsValueError sortFreed := fun _ h => h.sort

mutual

theorem declareArg_maintains : ∀ arg : Names, Maintains Inv IsValueError (declareArg arg)
  | .str name => declareName_maintains name
  | .list names => (resetLocals_maintains 1).bind fun _ => declareArgs_maintains names

theorem declareArgs_maintains : ∀ args : List Names, Maintains Inv IsValueError (declareArgs args)
  | [] => maintains_pure _
  | arg :: args => (declareArg_maintains arg).bind fun _ => declareArgs_maintains args

end

mutual

theorem freeArg_maintains : ∀ arg : Names, Maintains Inv IsValueError (freeArg arg)
  | .str name => freeName_maintains name
  | .list names => (freeArgs_maintains names).bind fun _ => sortFreed_maintains

theorem freeArgs_maintains : ∀ args : List Names, Maintains Inv IsValueError (freeArgs args)
  | [] => maintains_pure _
  | arg :: args => (freeArg_maintains arg).bind fun _ => freeArgs_maintains args

end

theorem declareLocals_maintains (names : List Names) (i : Int) (reset : Bool) :
    Maintains Inv IsValueError (declareLocals names i reset) := by
  cases reset with
  | true => exact (resetLocals_maintains i).bind fun _ => declareArgs_maintains names
  | false => exact declareArgs_maintains names

theorem body_maintains (c : Call) : Maintains Inv IsValueError c.body := by
  cases c with
  | resetLocals i => exact resetLocals_maintains i
  | declareLocals names i reset => exact declareLocals_maintains names i reset
  | freeLocals names => exact (freeArgs_maintains names).bind fun _ => sortFreed_maintains
  | localVariable name declare =>
      cases name with
      | some name => exact (localVariable_str_maintains name declare).bind fun _ => maintains_pure _
      | none => exact (localVariable_none_maintains declare).bind fun _ => maintains_pure _

theorem runCalls_maintains (cs : List Call) : Maintains Inv IsValueError (runCalls cs) := by
  induction cs with
  | nil => exact maintains_pure _
  | cons c cs ih => exact (body_maintains c).bind fun _ => ih

theorem Reached.inv (h : Reached s) : Inv s := by
  obtain ⟨cs, hrun⟩ := h
  exact (runCalls_maintains cs).ok inv_extend hrun

end Mlogv32.Template
