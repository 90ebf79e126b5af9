import Mlogv32.Uart.Theorems.Fifo

/-!
# Several producers on one RX FIFO

Each producer reads the write pointer, fills a cell and moves the pointer, in three steps. Nothing
is lost when no other producer moves the pointer meanwhile.
-/

namespace Mlogv32.Uart
open Cpu Mlog Logic Threads

variable {ι β : Type} [DecidableEq ι] [DecidableEq β]

/-- Any party may produce into RX. -/
def sharedRx (f : Fifo β) : Bool := decide (f.dir = .rx)

/-- TX stores only after a Status read that showed room, and no reset. -/
def RegularRx (W : Wiring ι β sharedRx) (p : ι) (op : Op β) (w : World ι β) : Prop :=
  op.Connected W p ∧ op.Checked w ∧ ¬op.IsReset

/-- In the careful interleavings, where no two enqueues overlap, every byte that was accepted is
delivered or in the FIFO, once. -/
theorem producers_exact {c : Nat} (hc : 1 ≤ c ∧ c ≤ 253) (W : Wiring ι β sharedRx)
    {t : Threads ι (World ι β) (List (Answer β))}
    (h : Reachable (Idle c) (Careful (RegularRx W)) (apply (Op.body c sharedRx)) t) (f : Fifo β) :
    FifoExact c t.state f := by
  have hsound : Sound c W t :=
    careful_sound hc (fun p op w hw hmay => ⟨hmay.1, hasRoom_of_checked hw hmay.2.1⟩) h
  have hany := h.mono fun _ _ => Careful.any
  exact hsound.holds.fifoExact hc.2 (resets_eq_nil (fun p op w hmay => hmay.2.2) hany f)

/-! ## A keyboard and a host on one bank -/

/-- Party `true` is the keyboard converter, `false` the host. -/
def keyboardWiring : Wiring Bool Unit sharedRx where
  produces _ f := f.dir = .rx
  consumes _ _ := False
  sole_producer f p q h hp := by simp [sharedRx, hp] at h
  sole_consumer _ _ _ h := h.elim
  shared_rx f h := by simpa [sharedRx] using h

/-- The keyboard enqueues a letter, and then the host a byte. -/
def enqueueBoth : List (Event Bool (Op Unit)) :=
  .start true (.waitForUart () 97) :: List.replicate 4 (.step true) ++
    [.start false (.hostWrite () 98), .step false]

theorem producers_exact_enqueueBoth :
    FifoExact 253 (enqueueBoth.foldl (apply (Op.body 253 sharedRx)) emptyBank).state ⟨(), .rx⟩ ∧
    (enqueueBoth.foldl (apply (Op.body 253 sharedRx)) emptyBank).state.content 253 ⟨(), .rx⟩ =
      [97, 98] := by
  refine ⟨producers_exact (by decide) keyboardWiring
    (Reachable.run (.init (emptyBank_idle 253)) enqueueBoth fun i hi => ?_) _, by decide⟩
  have hlen : i < 7 := hi
  interval_cases i <;> try rfl
  · exact ⟨rfl, trivial, fun h => h⟩
  · exact ⟨rfl, trivial, fun h => h⟩

/-- The host enqueues its byte while the keyboard is between its reads and its writes. -/
def enqueueAcross : List (Event Bool (Op Unit)) :=
  .start true (.waitForUart () 97) :: List.replicate 2 (.step true) ++
    [.start false (.hostWrite () 98), .step false, .step true, .step true]

/-- The byte of the host was accepted, and is gone. -/
theorem enqueueAcross_loses_byte :
    ¬∀ t, Reachable (Idle 253) (Any (RegularRx keyboardWiring)) (apply (Op.body 253 sharedRx)) t →
      FifoExact 253 t.state ⟨(), .rx⟩ := by
  intro h
  have hlost : (enqueueAcross.foldl (apply (Op.body 253 sharedRx)) emptyBank).state.content
    253 ⟨(), .rx⟩ ≠
      ((enqueueAcross.foldl (apply (Op.body 253 sharedRx)) emptyBank).state.log ⟨(), .rx⟩).accepted.drop
        ((enqueueAcross.foldl (apply (Op.body 253 sharedRx)) emptyBank).state.log ⟨(),
          .rx⟩).delivered.length := by
    decide
  refine hlost (h _ (Reachable.run (.init (emptyBank_idle 253)) enqueueAcross fun i hi => ?_)).rest
  have hlen : i < 7 := hi
  interval_cases i <;> try trivial
  · exact ⟨rfl, trivial, fun h => h⟩
  · exact ⟨rfl, trivial, fun h => h⟩

end Mlogv32.Uart
