import Mathlib

/-!
# Lists in chunks

A list that is cut into chunks of `c` elements, all of them full but the last one, as a loop fills
them: it appends an element to the last chunk, and begins a new chunk when that is full.
-/

namespace Mlogv32.Logic

variable {α : Type*}

/-- `l` in full chunks of `c` elements, and the rest of it. -/
structure Chunked (c : Nat) (l : List α) (chunks : List (List α)) (rest : List α) : Prop where
  flatten : chunks.flatten ++ rest = l
  full : ∀ chunk ∈ chunks, chunk.length = c
  rest_le : rest.length ≤ c

namespace Chunked

variable {c : Nat} {l : List α} {chunks : List (List α)} {rest : List α}

theorem nil (c : Nat) : Chunked c ([] : List α) [] [] := ⟨rfl, by simp, by simp⟩

theorem push (h : Chunked c l chunks rest) (hlt : rest.length < c) (x : α) :
    Chunked c (l ++ [x]) chunks (rest ++ [x]) where
  flatten := by rw [← h.flatten, List.append_assoc]
  full := h.full
  rest_le := by rw [List.length_append]; exact hlt

/-- The last chunk is full, and the next one begins. -/
theorem flush (h : Chunked c l chunks rest) (hfull : rest.length = c) :
    Chunked c l (chunks ++ [rest]) [] where
  flatten := by rw [← h.flatten]; simp
  full := by
    intro chunk hchunk
    rcases List.mem_append.mp hchunk with hchunk | hchunk
    · exact h.full chunk hchunk
    · rw [List.mem_singleton.mp hchunk]
      exact hfull
  rest_le := by simp

theorem length (h : Chunked c l chunks rest) : l.length = c * chunks.length + rest.length := by
  have hsum : chunks.flatten.length = c * chunks.length := by
    rw [List.length_flatten, List.map_congr_left h.full, List.map_const',
      List.sum_replicate, smul_eq_mul, mul_comm]
  rw [← h.flatten, List.length_append, hsum]

/-- Element `i` is element `i % c` of chunk `i / c`. -/
theorem getElem? (h : Chunked c l chunks rest) (hc : 0 < c) (i : Nat) :
    (chunks ++ [rest])[i / c]?.bind (·[i % c]?) = l[i]? := by
  induction chunks generalizing l i with
  | nil =>
      obtain rfl : rest = l := h.flatten
      by_cases hi : i < c
      · simp [Nat.div_eq_of_lt hi, Nat.mod_eq_of_lt hi]
      · have hdiv : 1 ≤ i / c := (Nat.one_le_div_iff hc).mpr (not_lt.mp hi)
        have hle := h.rest_le
        rw [List.nil_append, List.getElem?_eq_none (by simpa using hdiv),
          List.getElem?_eq_none (by omega)]
        rfl
  | cons chunk chunks ih =>
      have hlen : chunk.length = c := h.full chunk (by simp)
      have htail : Chunked c (chunks.flatten ++ rest) chunks rest :=
        ⟨rfl, fun x hx => h.full x (List.mem_cons_of_mem _ hx), h.rest_le⟩
      have hl : l = chunk ++ (chunks.flatten ++ rest) := by rw [← h.flatten]; simp
      rw [hl]
      by_cases hi : i < c
      · rw [Nat.div_eq_of_lt hi, Nat.mod_eq_of_lt hi]
        simp [List.getElem?_append_left (hlen.symm ▸ hi : i < chunk.length)]
      · have hsub := ih htail (i - c)
        rw [← Nat.mod_eq_sub_mod (not_lt.mp hi)] at hsub
        have hright : (chunk ++ (chunks.flatten ++ rest))[i]? = (chunks.flatten ++ rest)[i - c]? := by
          rw [List.getElem?_append_right (by omega), hlen]
        rw [hright, ← hsub, Nat.div_eq_sub_div hc (not_lt.mp hi)]
        rfl

end Chunked

end Mlogv32.Logic
