import Mathlib

/-!
# Ring buffers

A ring buffer of capacity `c` has `c + 1` slots and two pointers. The queue starts at the read
pointer and ends before the write pointer, and one slot always stays free, so that the pointers
meet only when the queue is empty.
-/

namespace Mlogv32.Logic

variable {V : Type*}

/-- The slots from `r` on hold the queue `q`, and `w` is the slot behind it. -/
structure Ring (c : Nat) (slot : Int → V) (r w : Int) (q : List V) : Prop where
  read : 0 ≤ r ∧ r ≤ c
  length : q.length ≤ c
  write : w = (r + q.length) % (c + 1)
  slots : ∀ k, ∀ h : k < q.length, slot ((r + k) % (c + 1)) = q[k]

/-- The queue between two pointers. -/
def contents (c : Nat) (slot : Int → V) (r w : Int) : List V :=
  (List.range ((w - r) % (c + 1)).toNat).map fun k : Nat => slot ((r + k) % (c + 1))

theorem contents_map {U : Type*} (f : V → U) (c : Nat) (slot : Int → V) (r w : Int) :
    contents c (fun i => f (slot i)) r w = (contents c slot r w).map f := by
  simp [contents]

/-! ## Slots -/

/-- A slot number that has run over the end at most once. -/
theorem wrap_eq {c : Nat} {x : Int} (h0 : 0 ≤ x) (h : x < 2 * (c + 1)) :
    x % (c + 1) = if x ≤ c then x else x - (c + 1) := by
  split
  · exact Int.emod_eq_of_lt h0 (by omega)
  · rw [← Int.sub_emod_right, Int.emod_eq_of_lt (by omega) (by omega)]

theorem wrap_range (c : Nat) (x : Int) : 0 ≤ x % (c + 1) ∧ x % (c + 1) ≤ c := by
  have hlo := Int.emod_nonneg x (b := c + 1) (by omega)
  have hhi := Int.emod_lt_of_pos x (b := (c : Int) + 1) (by omega)
  omega

theorem wrap_self {c : Nat} {x : Int} (h : 0 ≤ x ∧ x ≤ c) : x % (c + 1) = x :=
  Int.emod_eq_of_lt h.1 (by omega)

theorem wrap_add (c : Nat) (x y : Int) : (x % (c + 1) + y) % (c + 1) = (x + y) % (c + 1) :=
  Int.emod_add_emod _ _ _

/-- A pointer is back where it was after whole laps. -/
theorem wrap_add_eq_self {c : Nat} {x : Int} (h : 0 ≤ x ∧ x ≤ c) (n : Nat) :
    (x + n) % (c + 1) = x ↔ c + 1 ∣ n := by
  have hmod : (x + n) % (c + 1) = x ↔ x % (c + 1) = (x + n) % (c + 1) := by
    rw [wrap_self h]
    exact eq_comm
  rw [hmod, ← Int.ModEq, Int.modEq_iff_dvd, add_sub_cancel_left, ← Int.natCast_dvd_natCast]
  push_cast
  rfl

/-- Fewer than `c + 1` steps from a slot lead to different slots. -/
theorem wrap_ne {c : Nat} {r : Int} {k n : Nat} (hr : 0 ≤ r ∧ r ≤ c) (hk : k < n) (hn : n ≤ c) :
    (r + k) % (c + 1) ≠ (r + n) % (c + 1) := by
  rw [wrap_eq (by omega) (by omega), wrap_eq (by omega) (by omega)]
  split <;> split <;> omega

theorem contents_congr {c : Nat} {slot slot' : Int → V}
    (h : ∀ i : Int, 0 ≤ i ∧ i ≤ c → slot i = slot' i) (r w : Int) :
    contents c slot r w = contents c slot' r w := by
  refine List.map_congr_left fun k _ => ?_
  exact h _ (wrap_range c _)

namespace Ring

variable {c : Nat} {slot slot' : Int → V} {r w : Int} {q : List V}

theorem write_range (h : Ring c slot r w q) : 0 ≤ w ∧ w ≤ c := by
  rw [h.write]
  exact wrap_range c _

/-! ## Empty and full -/

theorem empty_iff (h : Ring c slot r w q) : r = w ↔ q = [] := by
  have hr := h.read
  have hlen := h.length
  rw [h.write, ← List.length_eq_zero_iff, wrap_eq (by omega) (by omega)]
  split <;> omega

theorem full_iff (h : Ring c slot r w q) : (w + 1) % (c + 1) = r ↔ q.length = c := by
  have hr := h.read
  have hlen := h.length
  rw [h.write, wrap_add, wrap_eq (by omega) (by omega)]
  split <;> omega

theorem length_eq (h : Ring c slot r w q) : ((w - r) % (c + 1)).toNat = q.length := by
  have hlen := h.length
  rw [h.write, Int.sub_emod, Int.emod_emod, ← Int.sub_emod, add_sub_cancel_left,
    Int.emod_eq_of_lt (by omega) (by omega), Int.toNat_natCast]

theorem contents_eq (h : Ring c slot r w q) : contents c slot r w = q := by
  apply List.ext_getElem
  · rw [contents, List.length_map, List.length_range, h.length_eq]
  · intro k _ hk
    simp only [contents, List.getElem_map, List.getElem_range]
    exact h.slots k hk

/-- Any two slots are the pointers of a queue. -/
theorem of_range (slot : Int → V) (hr : 0 ≤ r ∧ r ≤ c) (hw : 0 ≤ w ∧ w ≤ c) :
    Ring c slot r w (contents c slot r w) where
  read := hr
  length := by
    rw [contents, List.length_map, List.length_range]
    have hrange := wrap_range c (w - r)
    omega
  write := by
    rw [contents, List.length_map, List.length_range, Int.toNat_of_nonneg (wrap_range c (w - r)).1,
      add_comm, wrap_add, sub_add_cancel, wrap_self hw]
  slots := by
    intro k hk
    simp [contents]

/-! ## Operations -/

theorem head {v : V} {t : List V} (h : Ring c slot r w (v :: t)) : slot r = v := by
  have hk := h.slots 0 (Nat.zero_lt_succ _)
  rwa [Nat.cast_zero, Int.add_zero, wrap_self h.read] at hk

/-- The reader passes `n` slots. -/
theorem drop (h : Ring c slot r w q) {n : Nat} (hn : n ≤ q.length) :
    Ring c slot ((r + n) % (c + 1)) w (q.drop n) where
  read := wrap_range c _
  length := by rw [List.length_drop]; have := h.length; omega
  write := by
    rw [h.write, wrap_add, List.length_drop, Nat.cast_sub hn]
    congr 1
    omega
  slots := by
    intro k hk
    rw [List.length_drop] at hk
    rw [wrap_add, List.getElem_drop, ← h.slots (n + k) (by omega)]
    congr 2
    push_cast
    ring

theorem pop {v : V} {t : List V} (h : Ring c slot r w (v :: t)) : Ring c slot ((r + 1) % (c + 1)) w t :=
  h.drop (n := 1) (Nat.succ_le_succ (Nat.zero_le _))

/-- A value in the free slot changes nothing before the write pointer moves. -/
theorem scribble (h : Ring c slot r w q) (hslot : ∀ i, i ≠ w → slot' i = slot i) :
    Ring c slot' r w q where
  read := h.read
  length := h.length
  write := h.write
  slots := by
    intro k hk
    rw [hslot, h.slots k hk]
    rw [h.write]
    exact wrap_ne h.read hk h.length

/-- The writer passes the slot that it has filled. -/
theorem push (h : Ring c slot r w q) (hlen : q.length < c) :
    Ring c slot r ((w + 1) % (c + 1)) (q ++ [slot w]) where
  read := h.read
  length := by rw [List.length_append, List.length_singleton]; omega
  write := by
    rw [h.write, wrap_add, List.length_append, List.length_singleton, Nat.cast_add,
      Nat.cast_one, Int.add_assoc]
  slots := by
    intro k hk
    rcases Nat.lt_or_ge k q.length with hlt | hge
    · rw [List.getElem_append_left hlt, h.slots k hlt]
    · rw [List.getElem_append_right hge, List.getElem_singleton]
      rw [List.length_append, List.length_singleton] at hk
      rw [h.write, show k = q.length by omega]

/-- The writer returns to the reader. -/
theorem clear (h : Ring c slot r w q) : Ring c slot r r [] where
  read := h.read
  length := Nat.zero_le _
  write := by rw [List.length_nil, Nat.cast_zero, Int.add_zero, wrap_self h.read]
  slots := by intro k hk; simp at hk

end Ring

end Mlogv32.Logic
