import Mlogv32.Uart.Theorems.Fifo

/-!
# Resets of TX

A control store writes a copy of the read pointer that was read several instructions before. It is
safe when no consumer takes a byte meanwhile.
-/

namespace Mlogv32.Uart
open Cpu Mlog Logic Threads

variable {ι β : Type}

/-- No byte is delivered twice or out of order, and none that was accepted before a reset is
delivered after it. -/
structure NoStale (l : Log ι) : Prop where
  once : (l.delivered.map Prod.fst).Pairwise (· < ·)
  fresh : ∀ r ∈ l.resets, ∀ x ∈ l.delivered.drop r.2, r.1 ≤ x.1

instance (l : Log ι) : Decidable (NoStale l) :=
  decidable_of_iff ((l.delivered.map Prod.fst).Pairwise (· < ·) ∧ ∀ r ∈ l.resets,
    ∀ x ∈ l.delivered.drop r.2, r.1 ≤ x.1)
    ⟨fun h => ⟨h.1, h.2⟩, fun h => ⟨h.once, h.fresh⟩⟩

variable [DecidableEq ι] [DecidableEq β]

/-- One producer and one consumer for each FIFO, and TX stores only to a FIFO that is not full. -/
def Roomy (c : Nat) (W : Wiring ι β fun _ => false) (p : ι) (op : Op β) (w : World ι β) : Prop :=
  op.Connected W p ∧ op.HasRoom c w

/-- In the careful interleavings, where a reset of TX overlaps with no delivery. -/
theorem reset_noStale {c : Nat} (hc : 1 ≤ c ∧ c ≤ 253) (W : Wiring ι β fun _ => false)
    {t : Threads ι (World ι β) (List (Answer β))}
    (h : Reachable (Idle c) (Careful (Roomy c W)) (apply (Op.body c fun _ => false)) t) (f : Fifo β) :
    NoStale (t.state.log f) := by
  have hsound : Sound c W t := careful_sound hc (fun p op w _ hmay => hmay) h
  have hview := hsound.holds.view f
  exact ⟨hview.sorted, fun r hr => (hview.resets r hr).2.2⟩

/-! ## A reset between two deliveries -/

/-- The processor sends two bytes. -/
def sendTwo : List (Event Bool (Op Unit)) :=
  .start true (.storeUartTx () 65) :: List.replicate 6 (.step true) ++
    .start true (.storeUartTx () 66) :: List.replicate 6 (.step true)

/-- The host takes the first byte, the processor resets TX, and the host looks again. -/
def resetAfter : List (Event Bool (Op Unit)) :=
  sendTwo ++ [.start false (.hostRead ()), .step false] ++
    .start true (.storeUartControl () 0b01) :: List.replicate 5 (.step true) ++
      [.start false (.hostRead ()), .step false]

theorem reset_noStale_resetAfter :
    NoStale ((resetAfter.foldl (apply (Op.body 253 fun _ => false)) emptyBank).state.log ⟨(), .tx⟩) ∧
    ((resetAfter.foldl (apply (Op.body 253 fun _ => false)) emptyBank).state.log ⟨(),
      .tx⟩).delivered = [(0, 65)] := by
  refine ⟨reset_noStale (by decide) hostWiring
    (Reachable.run (.init (emptyBank_idle 253)) resetAfter fun i hi => ?_) _, by decide⟩
  have hlen : i < 24 := hi
  interval_cases i <;> try rfl
  · exact ⟨by simp [Op.Connected, hostWiring], by rw [Op.HasRoom]; decide⟩
  · exact ⟨by simp [Op.Connected, hostWiring], by rw [Op.HasRoom]; decide⟩
  · exact ⟨by simp [Op.Connected, hostWiring], trivial⟩
  · exact ⟨by simp [Op.Connected, hostWiring], trivial⟩
  · exact ⟨by simp [Op.Connected, hostWiring], trivial⟩

/-- The host takes the first byte between the processor's read of the read pointer and its write of
the write pointer. -/
def resetAcross : List (Event Bool (Op Unit)) :=
  sendTwo ++ .start true (.storeUartControl () 0b01) :: List.replicate 4 (.step true) ++
    [.start false (.hostRead ()), .step false, .step true, .start false (.hostRead ()), .step false]

/-- The second byte, which was sent before the reset, is delivered after it. -/
theorem resetAcross_delivers_stale :
    ¬∀ t, Reachable (Idle 253) (Any (Roomy 253 hostWiring)) (apply (Op.body 253 fun _ => false)) t →
      NoStale (t.state.log ⟨(), .tx⟩) := by
  intro h
  have hstale : ¬NoStale ((resetAcross.foldl (apply (Op.body 253 fun _ => false))
      emptyBank).state.log ⟨(), .tx⟩) := by
    decide
  refine hstale (h _ (Reachable.run (.init (emptyBank_idle 253)) resetAcross fun i hi => ?_))
  have hlen : i < 24 := hi
  interval_cases i <;> try trivial
  · exact ⟨by simp [Op.Connected, hostWiring], by rw [Op.HasRoom]; decide⟩
  · exact ⟨by simp [Op.Connected, hostWiring], by rw [Op.HasRoom]; decide⟩
  · exact ⟨by simp [Op.Connected, hostWiring], trivial⟩
  · exact ⟨by simp [Op.Connected, hostWiring], trivial⟩
  · exact ⟨by simp [Op.Connected, hostWiring], trivial⟩

end Mlogv32.Uart
