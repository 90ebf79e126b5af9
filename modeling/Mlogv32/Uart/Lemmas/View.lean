import Mlogv32.Mlog.Bits
import Mlogv32.Uart.System

/-!
# One FIFO of a world

Every action changes the cells and the log of one FIFO only. `View` is the part of a world that
belongs to a FIFO, `View.Inv` what holds of it between any two actions.
-/

namespace Mlogv32.Uart
open Cpu Mlog Logic

structure View (ι : Type) where
  rptr : Int
  wptr : Int
  /-- The data cells, with the numbers of their bytes. -/
  slot : Int → Int × Nat
  log : Log ι

/-- What a consumer makes of the value of a cell. -/
def Decodes (a v : Int) : Prop :=
  v = a ∨ v = opAnd a 0xffffffff ∨ v = (UartAccess.toUByte (UartAccess.toInt a)).toNat

variable {ι : Type}

/-! ## The invariant of a FIFO -/

structure View.Inv (c : Nat) (v : View ι) : Prop where
  ring : Ring c v.slot v.rptr v.wptr v.log.queue
  removed : v.log.removed ≤ v.log.accepted.length
  sorted : (v.log.delivered.map Prod.fst).Pairwise (· < ·)
  delivered : ∀ x ∈ v.log.delivered,
    x.1 < v.log.removed ∧ ∃ a, v.log.accepted[x.1]? = some a ∧ Decodes a x.2
  resets : ∀ x ∈ v.log.resets, x.1 ≤ v.log.removed ∧ x.2 ≤ v.log.delivered.length ∧
    ∀ y ∈ v.log.delivered.drop x.2, x.1 ≤ y.1
  exact : v.log.resets = [] → v.log.delivered.map Prod.fst = List.range v.log.removed
  ready : v.log.ready = true → v.log.queued < c

theorem Log.queue_length (l : Log ι) : l.queue.length = l.queued := by
  rw [Log.queue, Log.queued, List.length_drop, List.length_zipIdx]

/-- The first byte in the FIFO is the first that was not removed. -/
theorem Log.queue_head {l : Log ι} (h : 0 < l.queued) :
    ∃ a t, l.queue = (a, l.removed) :: t ∧ l.accepted[l.removed]? = some a ∧
      t = l.accepted.zipIdx.drop (l.removed + 1) := by
  have hlt : l.removed < l.accepted.length := by rw [Log.queued] at h; omega
  refine ⟨l.accepted[l.removed], _, ?_, List.getElem?_eq_getElem hlt, rfl⟩
  rw [Log.queue, List.drop_eq_getElem_cons (by rwa [List.length_zipIdx]),
    List.getElem_zipIdx, Nat.zero_add]

theorem opMod_succ {c : Nat} {x : Int} (h : 0 ≤ x) : opMod (x + 1) (c + 1) = (x + 1) % (c + 1) :=
  opMod_eq (by omega) (by omega)

namespace View

variable {c : Nat} {v : View ι}

theorem Inv.empty_iff (h : v.Inv c) : v.rptr = v.wptr ↔ v.log.queued = 0 := by
  rw [h.ring.empty_iff, ← Log.queue_length, List.length_eq_zero_iff]

theorem Inv.full_iff (h : v.Inv c) : opMod (v.wptr + 1) (c + 1) = v.rptr ↔ v.log.queued = c := by
  have hw := h.ring.write_range
  rw [opMod_succ hw.1, h.ring.full_iff, Log.queue_length]

/-- The cell at the read pointer holds the first byte of the queue. -/
theorem Inv.head (h : v.Inv c) (hq : 0 < v.log.queued) :
    v.log.accepted[v.log.removed]? = some (v.slot v.rptr).1 ∧ (v.slot v.rptr).2 = v.log.removed := by
  obtain ⟨a, t, hqueue, ha, -⟩ := Log.queue_head hq
  have hring := h.ring
  rw [hqueue] at hring
  rw [hring.head]
  exact ⟨ha, rfl⟩

/-! ## The actions on one FIFO -/

def putData (v : View ι) (p : ι) (slot value : Int) : View ι :=
  { v with
    slot := Function.update v.slot slot (value, v.log.accepted.length)
    log := { v.log with writing := some p, ready := false } }

def publish (v : View ι) (wptr value : Int) : View ι :=
  { v with
    wptr := wptr
    log := { v.log with accepted := v.log.accepted ++ [value], writing := none } }

def look (v : View ι) (rptr : Int) : View ι :=
  { v with log := { v.log with dequeuing := decide (rptr ≠ v.wptr) } }

def release (v : View ι) (rptr : Int) (stamp : Nat) (value : Int) (more : Bool) : View ι :=
  { v with
    rptr := rptr
    log := { v.log with
      removed := v.log.removed + 1
      delivered := v.log.delivered ++ [(stamp, value)]
      dequeuing := more } }

def resetRx (c : Nat) (v : View ι) (rxWrite : Int) : View ι :=
  let removed := v.log.removed + ((rxWrite - v.rptr) % (c + 1)).toNat
  { v with
    rptr := rxWrite
    log := { v.log with
      removed := removed
      resets := v.log.resets ++ [(removed, v.log.delivered.length)] } }

def resetTx (v : View ι) (txRead : Int) : View ι :=
  { v with
    wptr := txRead
    log := { v.log with
      removed := v.log.accepted.length
      resets := v.log.resets ++ [(v.log.accepted.length, v.log.delivered.length)] } }

def markReady (v : View ι) : View ι := { v with log := { v.log with ready := true } }

/-! ## The actions keep the invariant -/

theorem Inv.putData (h : v.Inv c) (p : ι) {slot : Int} (hslot : v.wptr = slot) (value : Int) :
    (v.putData p slot value).Inv c where
  ring := h.ring.scribble fun i hi => by
    rw [hslot] at hi
    exact Function.update_of_ne hi _ _
  removed := h.removed
  sorted := h.sorted
  delivered := h.delivered
  resets := h.resets
  exact := h.exact
  ready := by simp [View.putData]

theorem Inv.publish (h : v.Inv c) {value : Int} (hlen : v.log.queued < c)
    (hslot : v.slot v.wptr = (value, v.log.accepted.length)) (hready : v.log.ready = false) :
    (v.publish (opMod (v.wptr + 1) (c + 1)) value).Inv c where
  ring := by
    have hw := h.ring.write_range
    have hpush := h.ring.push (by rwa [Log.queue_length])
    have hqueue : (v.publish (opMod (v.wptr + 1) (c + 1)) value).log.queue =
        v.log.queue ++ [v.slot v.wptr] := by
      rw [hslot]
      simp only [View.publish, Log.queue, List.zipIdx_append, List.zipIdx_singleton, Nat.zero_add]
      exact List.drop_append_of_le_length (by rw [List.length_zipIdx]; exact h.removed)
    rw [hqueue]
    dsimp only [View.publish]
    rw [opMod_succ hw.1]
    exact hpush
  removed := by
    have := h.removed
    simp only [View.publish, List.length_append]
    omega
  sorted := h.sorted
  delivered := by
    intro x hx
    obtain ⟨hlt, a, ha, hdec⟩ := h.delivered x hx
    refine ⟨hlt, a, ?_, hdec⟩
    exact List.getElem?_append_left (List.getElem?_eq_some_iff.mp ha).1 ▸ ha
  resets := h.resets
  exact := h.exact
  ready := by simp [View.publish, hready]

theorem Inv.look (h : v.Inv c) (rptr : Int) : (v.look rptr).Inv c :=
  ⟨h.ring, h.removed, h.sorted, h.delivered, h.resets, h.exact, h.ready⟩

theorem Inv.markReady (h : v.Inv c) (hlen : v.log.queued < c) : v.markReady.Inv c :=
  ⟨h.ring, h.removed, h.sorted, h.delivered, h.resets, h.exact, fun _ => hlen⟩

theorem Inv.release (h : v.Inv c) (hq : 0 < v.log.queued) {value : Int}
    (hvalue : Decodes (v.slot v.rptr).1 value) (more : Bool) :
    (v.release (opMod (v.rptr + 1) (c + 1)) (v.slot v.rptr).2 value more).Inv c := by
  obtain ⟨hacc, hstamp⟩ := h.head hq
  obtain ⟨a, t, hqueue, -, ht⟩ := Log.queue_head hq
  have hr := h.ring.read
  have hlt : v.log.removed < v.log.accepted.length := (List.getElem?_eq_some_iff.mp hacc).1
  constructor
  case ring =>
    have hpop := h.ring
    rw [hqueue] at hpop
    have hpop := hpop.pop
    rw [ht] at hpop
    dsimp only [View.release]
    rw [opMod_succ hr.1]
    exact hpop
  case removed => exact hlt
  case sorted =>
    simp only [View.release, List.map_append, List.map_cons, List.map_nil]
    refine List.pairwise_append.mpr ⟨h.sorted, List.pairwise_singleton _ _, ?_⟩
    intro x hx y hy
    obtain ⟨z, hz, rfl⟩ := List.mem_map.mp hx
    rw [List.mem_singleton.mp hy, hstamp]
    exact (h.delivered z hz).1
  case delivered =>
    intro x hx
    rcases List.mem_append.mp hx with hx | hx
    · obtain ⟨hlt', hx⟩ := h.delivered x hx
      exact ⟨Nat.lt_succ_of_lt hlt', hx⟩
    · rw [List.mem_singleton.mp hx]
      refine ⟨?_, (v.slot v.rptr).1, ?_, hvalue⟩
      · rw [hstamp]
        exact Nat.lt_succ_self _
      · rw [hstamp]
        exact hacc
  case resets =>
    intro x hx
    obtain ⟨h1, h2, h3⟩ := h.resets x hx
    refine ⟨Nat.le_succ_of_le h1, ?_, ?_⟩
    · simp only [View.release, List.length_append]
      omega
    · intro y hy
      simp only [View.release] at hy
      rw [List.drop_append_of_le_length h2] at hy
      rcases List.mem_append.mp hy with hy | hy
      · exact h3 y hy
      · rw [List.mem_singleton.mp hy, hstamp]
        exact h1
  case exact =>
    intro hres
    simp only [View.release, List.map_append, List.map_cons, List.map_nil, List.range_succ]
    rw [h.exact hres, hstamp]
  case ready =>
    intro hready
    have := h.ready hready
    simp only [View.release, Log.queued] at this ⊢
    omega

theorem Inv.resetRx (h : v.Inv c) {n : Nat} (hn : n ≤ v.log.queued) :
    (v.resetRx c ((v.rptr + n) % (c + 1))).Inv c := by
  have hr := h.ring.read
  have hlen := h.ring.length
  rw [Log.queue_length] at hlen
  have hremoved := h.removed
  have hcount : (((v.rptr + n) % (c + 1) - v.rptr) % (c + 1)).toNat = n := by
    rw [Int.sub_emod, Int.emod_emod, ← Int.sub_emod, add_sub_cancel_left,
      Int.emod_eq_of_lt (by omega) (by omega), Int.toNat_natCast]
  have hle : v.log.removed + n ≤ v.log.accepted.length := by
    rw [Log.queued] at hn
    omega
  simp only [View.resetRx, hcount]
  constructor
  case ring =>
    have hdrop := h.ring.drop (n := n) (by rwa [Log.queue_length])
    rw [Log.queue, List.drop_drop] at hdrop
    exact hdrop
  case removed => exact hle
  case sorted => exact h.sorted
  case delivered =>
    intro x hx
    obtain ⟨hlt, hx⟩ := h.delivered x hx
    exact ⟨Nat.lt_add_right _ hlt, hx⟩
  case resets =>
    intro x hx
    rcases List.mem_append.mp hx with hx | hx
    · obtain ⟨h1, h2⟩ := h.resets x hx
      exact ⟨Nat.le_add_right_of_le h1, h2⟩
    · rw [List.mem_singleton.mp hx]
      exact ⟨le_refl _, le_refl _, by simp⟩
  case exact => simp
  case ready =>
    intro hready
    have := h.ready hready
    simp only [Log.queued] at this ⊢
    omega

theorem Inv.resetTx (h : v.Inv c) (hc : 0 < c) : (v.resetTx v.rptr).Inv c := by
  constructor
  case ring =>
    have hqueue : (v.resetTx v.rptr).log.queue = [] := by
      simp [View.resetTx, Log.queue]
    rw [hqueue]
    exact h.ring.clear
  case removed => exact le_refl _
  case sorted => exact h.sorted
  case delivered =>
    intro x hx
    obtain ⟨hlt, hx⟩ := h.delivered x hx
    exact ⟨lt_of_lt_of_le hlt h.removed, hx⟩
  case resets =>
    intro x hx
    rcases List.mem_append.mp hx with hx | hx
    · obtain ⟨h1, h2⟩ := h.resets x hx
      exact ⟨h1.trans h.removed, h2⟩
    · rw [List.mem_singleton.mp hx]
      exact ⟨le_refl _, le_refl _, by simp [View.resetTx]⟩
  case exact => simp [View.resetTx]
  case ready =>
    intro _
    simp only [View.resetTx, Log.queued]
    omega

end View

end Mlogv32.Uart
