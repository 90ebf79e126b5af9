import Mlogv32.Uart.Lemmas.View

/-!
# Worlds seen through their FIFOs

Each action on a world is the action of the same name on the view of one FIFO, and the views of the
other FIFOs stay as they are.
-/

namespace Mlogv32.Uart
open Cpu Mlog Logic

variable {ι β : Type}

namespace World

/-- The FIFO's part of a world. A bank has 254 data cells for each direction. -/
def view (w : World ι β) (f : Fifo β) : View ι where
  rptr := w.rptr f
  wptr := w.wptr f
  slot i := if 0 ≤ i ∧ i < 254 then (w.banks f.bank (f.start + i), w.stamps f.bank (f.start + i))
    else (0, 0)
  log := w.log f

structure Inv (c : Nat) (w : World ι β) : Prop where
  view : ∀ f, (w.view f).Inv c
  dataWrites : ∀ x ∈ w.dataWrites, ∃ f : Fifo β, x.1 = f.bank ∧ f.start ≤ x.2 ∧ x.2 ≤ f.start + c

/-! ## Actions on one FIFO -/

/-- The two FIFOs of a bank have different cells. -/
theorem cell_ne {f f' : Fifo β} (h : f' ≠ f) {i j : Int} (hi : f.start ≤ i ∧ i < f.start + 256)
    (hj : f'.start ≤ j ∧ j < f'.start + 256) : ¬(f'.bank = f.bank ∧ j = i) := by
  rintro ⟨hbank, rfl⟩
  obtain ⟨b, d⟩ := f
  obtain ⟨b', d'⟩ := f'
  cases hbank
  cases d <;> cases d' <;> simp [Fifo.start, uartTxStart] at h hi hj <;> omega

theorem rptrCell_range (f : Fifo β) : f.start ≤ f.rptrCell ∧ f.rptrCell < f.start + 256 := by
  obtain ⟨b, d⟩ := f
  cases d <;> simp [Fifo.start, Fifo.rptrCell, uartRxRead, uartTxStart, uartTxRead]

theorem wptrCell_range (f : Fifo β) : f.start ≤ f.wptrCell ∧ f.wptrCell < f.start + 256 := by
  obtain ⟨b, d⟩ := f
  cases d <;> simp [Fifo.start, Fifo.wptrCell, uartRxWrite, uartTxStart, uartTxWrite]

theorem view_of_ne {w w' : World ι β} {f f' : Fifo β} (hne : f' ≠ f)
    (hbanks : ∀ b j, ¬(b = f.bank ∧ f.start ≤ j ∧ j < f.start + 256) → w'.banks b j = w.banks b j)
    (hstamps : ∀ b j, ¬(b = f.bank ∧ f.start ≤ j ∧ j < f.start + 256) → w'.stamps b j = w.stamps b j)
    (hlog : w'.log f' = w.log f') : w'.view f' = w.view f' := by
  have hout : ∀ j, f'.start ≤ j ∧ j < f'.start + 256 →
      ¬(f'.bank = f.bank ∧ f.start ≤ j ∧ j < f.start + 256) :=
    fun j hj h => cell_ne hne h.2 hj ⟨h.1, rfl⟩
  have hcell : ∀ i, 0 ≤ i ∧ i < 254 → f'.start ≤ f'.start + i ∧ f'.start + i < f'.start + 256 := by
    intro i hi
    omega
  simp only [view, rptr, wptr, hlog, hbanks _ _ (hout _ (rptrCell_range f')),
    hbanks _ _ (hout _ (wptrCell_range f'))]
  congr 1
  funext i
  split
  · rename_i hi
    rw [hbanks _ _ (hout _ (hcell i hi)), hstamps _ _ (hout _ (hcell i hi))]
  · rfl

variable [DecidableEq β]

theorem setCell_of_out {V : Type} {cells : β → Int → V} {f : Fifo β} {i : Int} {v : V}
    (hi : f.start ≤ i ∧ i < f.start + 256) {b : β} {j : Int}
    (h : ¬(b = f.bank ∧ f.start ≤ j ∧ j < f.start + 256)) :
    setCell cells f.bank i v b j = cells b j := by
  rw [setCell, if_neg]
  rintro ⟨rfl, rfl⟩
  exact h ⟨rfl, hi⟩

theorem setLog_of_ne {w : World ι β} {f f' : Fifo β} (h : f' ≠ f) (l : Log ι) :
    w.setLog f l f' = w.log f' := by
  rw [setLog, Function.update_of_ne h]

variable {w : World ι β} {f f' : Fifo β}

theorem view_putData_of_ne (hne : f' ≠ f) (p : ι) {slot : Int} (hslot : 0 ≤ slot ∧ slot < 254)
    (value : Int) :
    (w.putData p f slot value).view f' = w.view f' :=
  view_of_ne hne (fun _ _ h => setCell_of_out ⟨by omega, by omega⟩ h)
    (fun _ _ h => setCell_of_out ⟨by omega, by omega⟩ h) (setLog_of_ne hne _)

theorem view_publish_of_ne (hne : f' ≠ f) (wptr value : Int) :
    (w.publish f wptr value).view f' = w.view f' :=
  view_of_ne hne (fun _ _ h => setCell_of_out (wptrCell_range f) h)
    (fun _ _ _ => rfl) (setLog_of_ne hne _)

theorem view_look_of_ne (hne : f' ≠ f) (rptr : Int) : (w.look f rptr).view f' = w.view f' :=
  view_of_ne hne (fun _ _ _ => rfl) (fun _ _ _ => rfl) (setLog_of_ne hne _)

theorem view_release_of_ne (hne : f' ≠ f) (rptr : Int) (stamp : Nat) (value : Int) (more : Bool) :
    (w.release f rptr stamp value more).view f' = w.view f' :=
  view_of_ne hne (fun _ _ h => setCell_of_out (rptrCell_range f) h)
    (fun _ _ _ => rfl) (setLog_of_ne hne _)

theorem view_resetRx_of_ne (hne : f' ≠ f) (c : Nat) (rxWrite : Int) :
    (w.resetRx c f rxWrite).view f' = w.view f' :=
  view_of_ne hne (fun _ _ h => setCell_of_out (rptrCell_range f) h)
    (fun _ _ _ => rfl) (setLog_of_ne hne _)

theorem view_resetTx_of_ne (hne : f' ≠ f) (txRead : Int) : (w.resetTx f txRead).view f' = w.view f' :=
  view_of_ne hne (fun _ _ h => setCell_of_out (wptrCell_range f) h)
    (fun _ _ _ => rfl) (setLog_of_ne hne _)

theorem view_markReady_of_ne (hne : f' ≠ f) : (w.markReady f).view f' = w.view f' :=
  view_of_ne hne (fun _ _ _ => rfl) (fun _ _ _ => rfl) (setLog_of_ne hne _)

theorem setLog_self (l : Log ι) : w.setLog f l f = l := by
  rw [setLog, Function.update_self]

theorem setCell_self {V : Type} (cells : β → Int → V) (b : β) (i : Int) (v : V) :
    setCell cells b i v b i = v :=
  if_pos ⟨rfl, rfl⟩

theorem setCell_of_ne {V : Type} (cells : β → Int → V) (b : β) {i j : Int} (v : V) (h : j ≠ i) :
    setCell cells b i v b j = cells b j := if_neg fun h' => h h'.2

omit [DecidableEq β] in
/-- The data cells of a FIFO lie before its pointers. -/
theorem slot_ne (f : Fifo β) {i : Int} (hi : 0 ≤ i ∧ i < 254) :
    f.start + i ≠ f.rptrCell ∧ f.start + i ≠ f.wptrCell ∧ f.rptrCell ≠ f.wptrCell := by
  obtain ⟨b, d⟩ := f
  cases d <;>
    simp [Fifo.start, Fifo.rptrCell, Fifo.wptrCell, uartRxRead, uartRxWrite,
      uartTxStart, uartTxRead, uartTxWrite]
      <;> omega

theorem view_putData (p : ι) {slot : Int} (hslot : 0 ≤ slot ∧ slot < 254) (value : Int) :
    (w.putData p f slot value).view f = (w.view f).putData p slot value := by
  obtain ⟨hr, hw, -⟩ := slot_ne f hslot
  simp only [view, View.putData, putData, rptr, wptr, setLog_self, setCell_of_ne _ _ _ hr.symm,
    setCell_of_ne _ _ _ hw.symm]
  congr 1
  funext i
  by_cases hi : i = slot
  · subst hi
    rw [Function.update_self, if_pos hslot, setCell_self, setCell_self]
  · rw [Function.update_of_ne hi]
    have : f.start + i ≠ f.start + slot := by omega
    rw [setCell_of_ne _ _ _ this, setCell_of_ne _ _ _ this]

theorem slots_setCell {i : Int} (hi : ∀ j, 0 ≤ j ∧ j < 254 → f.start + j ≠ i) (v : Int) :
    (fun j => if 0 ≤ j ∧ j < 254 then (setCell w.banks f.bank i v f.bank (f.start + j),
      w.stamps f.bank (f.start + j))
      else (0, 0)) = (w.view f).slot := by
  funext j
  by_cases hj : 0 ≤ j ∧ j < 254
  · simp only [view, if_pos hj, setCell_of_ne _ _ _ (hi j hj)]
  · simp only [view, if_neg hj]

theorem view_publish (wptr value : Int) :
    (w.publish f wptr value).view f = (w.view f).publish wptr value := by
  have hcells := slot_ne f (i := 0) (by decide)
  have hslots := slots_setCell (w := w) (f := f) (fun j hj => (slot_ne f hj).2.1) wptr
  simp only [view, publish, World.rptr, World.wptr, setLog_self, setCell_self,
    setCell_of_ne _ _ _ hcells.2.2] at hslots ⊢
  rw [hslots]
  rfl

theorem view_look (rptr : Int) : (w.look f rptr).view f = (w.view f).look rptr := by
  simp only [view, look, setLog_self]
  rfl

theorem view_release (rptr : Int) (stamp : Nat) (value : Int) (more : Bool) :
    (w.release f rptr stamp value more).view f = (w.view f).release rptr stamp value more := by
  have hcells := slot_ne f (i := 0) (by decide)
  have hslots := slots_setCell (w := w) (f := f) (fun j hj => (slot_ne f hj).1) rptr
  simp only [view, release, World.rptr, World.wptr, setLog_self, setCell_self,
    setCell_of_ne _ _ _ hcells.2.2.symm] at hslots ⊢
  rw [hslots]
  rfl

theorem view_resetRx (c : Nat) (rxWrite : Int) :
    (w.resetRx c f rxWrite).view f = (w.view f).resetRx c rxWrite := by
  have hcells := slot_ne f (i := 0) (by decide)
  have hslots := slots_setCell (w := w) (f := f) (fun j hj => (slot_ne f hj).1) rxWrite
  simp only [view, resetRx, World.rptr, World.wptr, setLog_self, setCell_self,
    setCell_of_ne _ _ _ hcells.2.2.symm] at hslots ⊢
  rw [hslots]
  rfl

theorem view_resetTx (txRead : Int) : (w.resetTx f txRead).view f = (w.view f).resetTx txRead := by
  have hcells := slot_ne f (i := 0) (by decide)
  have hslots := slots_setCell (w := w) (f := f) (fun j hj => (slot_ne f hj).2.1) txRead
  simp only [view, resetTx, World.rptr, World.wptr, setLog_self, setCell_self,
    setCell_of_ne _ _ _ hcells.2.2] at hslots ⊢
  rw [hslots]
  rfl

theorem view_markReady : (w.markReady f).view f = (w.view f).markReady := by
  simp only [view, markReady, setLog_self]
  rfl

end World

end Mlogv32.Uart
