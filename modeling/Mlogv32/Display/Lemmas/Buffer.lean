import Mlogv32.Display.Scrolling
import Mlogv32.Logic.Terminal

/-!
# The ring of the scrolling display

INCR and DECR are the successor and the predecessor in the ring, and the buffer holds the last 2660
cells of the text.
-/

namespace Mlogv32.Display
open Mlog Cpu Logic

/-! ## Variables -/

/-- The variable of a cell. -/
def slot (j : Int) : Value := .var (j % 2660).toNat

theorem slot_eq_iff {i j : Int} : slot i = slot j ↔ i % 2660 = j % 2660 := by
  rw [slot, slot, Value.var.injEq]
  omega

theorem lookupVariable_eq {i : Int} (h0 : 0 ≤ i) (h : i < 2660) : lookupVariable i = slot i := by
  have hdiv : opIdiv i 260 = i / 260 := Int.fdiv_eq_ediv_of_nonneg i (by decide)
  have hmod : opMod i 260 = i % 260 := by
    rw [opMod, if_neg (by decide), Int.tmod_eq_emod_of_nonneg h0]
  rw [lookupVariable, lookupProcSize, hdiv, hmod, lookupProc, lookupProcSize,
    ramProcVars, slot, if_pos (by omega)]
  congr 2
  omega

@[simp] theorem readVar_slot (proc : Proc) (j : Int) (old : Value) :
    readVar proc (slot j) old = proc (j % 2660).toNat := rfl

theorem writeVar_slot (proc : Proc) (j : Int) (x : Value) (i : Int) :
    writeVar proc (slot j) x (i % 2660).toNat = if slot i = slot j then x
    else proc (i % 2660).toNat := by
  rw [slot, slot, writeVar]
  simp only [Value.var.injEq]

/-- INCR and DECR link the ring. -/
structure Linked (incr decr : Proc) : Prop where
  incr (j : Int) : incr (j % 2660).toNat = slot (j + 1)
  decr (j : Int) : decr (j % 2660).toNat = slot (j - 1)

/-! ## Initialisation -/

/-- INCR and DECR after the rounds for the variables below `k`. -/
structure LinkedTo (k : Int) (incr decr : Proc) : Prop where
  incr (j : Int) (h0 : 0 ≤ j) (h : j < k) : incr (j % 2660).toNat = slot (j + 1)
  decr (j : Int) (h0 : 0 ≤ j) (h : j < k) : decr (j % 2660).toNat = slot (j - 1)

theorem LinkedTo.round {k : Int} {incr decr : Proc} (h : LinkedTo k incr decr) (hk : k < 2660) :
    LinkedTo (k + 1) (writeVar incr (slot k) (slot (k + 1)))
      (writeVar decr (slot k) (slot (k - 1))) where
  incr j h0 hj := by
    rw [writeVar_slot]
    split_ifs with heq
    · rw [slot_eq_iff] at heq ⊢
      omega
    · refine h.incr j h0 (lt_of_le_of_ne (by omega) ?_)
      rintro rfl
      exact heq rfl
  decr j h0 hj := by
    rw [writeVar_slot]
    split_ifs with heq
    · rw [slot_eq_iff] at heq ⊢
      omega
    · refine h.decr j h0 (lt_of_le_of_ne (by omega) ?_)
      rintro rfl
      exact heq rfl

theorem LinkedTo.linked {incr decr : Proc} (h : LinkedTo 2660 incr decr) : Linked incr decr where
  incr j := by
    have hj := h.incr (j % 2660) (by omega) (by omega)
    rw [Int.emod_emod_of_dvd j (dvd_refl 2660)] at hj
    rw [hj, slot_eq_iff]
    omega
  decr j := by
    have hj := h.decr (j % 2660) (by omega) (by omega)
    rw [Int.emod_emod_of_dvd j (dvd_refl 2660)] at hj
    rw [hj, slot_eq_iff]
    omega

theorem incrDecrLoop_linked {fuel : Nat} {k : Int} (h0 : 0 ≤ k) (hk : k < 2660)
    (hfuel : 2660 - k ≤ fuel) {incr decr : Proc} (h : LinkedTo k incr decr) :
    ∃ incr' decr', Scrolling.incrDecrLoop fuel (slot (k - 1)) (slot k) ((k + 1) % 2660) incr decr =
      some (incr', decr') ∧
      Linked incr' decr' := by
  induction fuel generalizing k incr decr with
  | zero => omega
  | succ fuel ih =>
      have hnext : lookupVariable ((k + 1) % 2660) = slot (k + 1) := by
        rw [lookupVariable_eq (by omega) (by omega), slot_eq_iff]
        omega
      have hround := h.round hk
      rw [Scrolling.incrDecrLoop, hnext]
      by_cases hlast : k = 2659
      · subst hlast
        exact ⟨_, _, if_neg (by decide), hround.linked⟩
      · have hne : slot (k + 1) ≠ .var 0 := by
          rw [slot, ne_eq, Value.var.injEq]
          omega
        have hmod : opMod ((k + 1) % 2660 + 1) bufferMaxSize = (k + 1 + 1) % 2660 := by
          rw [show bufferMaxSize = 2660 from rfl, opMod, if_neg (by decide),
            Int.tmod_eq_emod_of_nonneg (by omega)]
          omega
        obtain ⟨incr', decr', hrun, hlinked⟩ := ih (by omega) (by omega) (by omega) hround
        rw [add_sub_cancel_right] at hrun
        exact ⟨incr', decr', by simp only [if_pos hne, hmod, hrun], hlinked⟩

/-! ## Writing -/

/-- The ring holds the last cells of `text`, and the next cell is written behind them. -/
structure Buffered (text : List Int) (s : Scrolling) : Prop where
  linked : Linked s.incr s.decr
  write : s.bufferWrite = slot text.length
  cells (j : Nat) (char : Int) (hlast : text.length ≤ j + 2660) (hj : text[j]? = some char) :
    s.buffer ((j : Int) % 2660).toNat = .num char

theorem Buffered.writeChar {text : List Int} {s : Scrolling} (h : Buffered text s) (char : Int) :
    Buffered (text ++ [char]) (s.writeChar (.num char)) where
  linked := h.linked
  write := by
    rw [Scrolling.writeChar, List.length_append, List.length_singleton]
    simp only [h.write, readVar_slot, h.linked.incr]
    push_cast
    rfl
  cells j x hlast hj := by
    rw [List.length_append, List.length_singleton] at hlast
    rw [Scrolling.writeChar]
    simp only [h.write, writeVar_slot, slot_eq_iff]
    by_cases hnew : j = text.length
    · subst hnew
      rw [List.getElem?_concat_length] at hj
      cases hj
      rw [if_pos rfl]
    · have hlt : j < text.length := by
        have hle := (List.getElem?_eq_some_iff.mp hj).1
        rw [List.length_append, List.length_singleton] at hle
        omega
      rw [List.getElem?_append_left hlt] at hj
      rw [if_neg (by omega), h.cells j x (by omega) hj]

end Mlogv32.Display
