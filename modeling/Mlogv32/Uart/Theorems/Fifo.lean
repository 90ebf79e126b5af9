import Mlogv32.Uart.Lemmas.System

/-!
# The FIFOs of a UART lose, duplicate and reorder nothing
-/

namespace Mlogv32.Uart
open Cpu Mlog Logic Threads

variable {ι β : Type}

/-- The FIFO has handed on the accepted bytes in order, and holds the others. -/
structure FifoExact (c : Nat) (w : World ι β) (f : Fifo β) : Prop where
  rptr : 0 ≤ w.rptr f ∧ w.rptr f ≤ c
  wptr : 0 ≤ w.wptr f ∧ w.wptr f ≤ c
  rest : w.content c f = (w.log f).accepted.drop (w.log f).delivered.length
  queued : (w.log f).queued = (w.content c f).length
  /-- Delivery number `k` is made of byte number `k`, whose value the consumer has decoded. -/
  order : ∀ (k stamp : Nat) (v : Int), (w.log f).delivered[k]? = some (stamp, v) →
    stamp = k ∧ ∃ a, (w.log f).accepted[k]? = some a ∧ Decodes a v
  bytes : (∀ a ∈ (w.log f).accepted, 0 ≤ a ∧ a < 256) →
    (w.log f).accepted = (w.log f).delivered.map Prod.snd ++ w.content c f

/-- A byte is what every consumer makes of it. -/
theorem Decodes.byte {a v : Int} (h : Decodes a v) (ha : 0 ≤ a ∧ a < 256) : v = a := by
  rcases h with rfl | rfl | rfl
  · rfl
  · have hpow : (2 : Int) ^ 32 - 1 = 0xffffffff := by decide
    rw [← hpow, opAnd_low a 32 (by decide)]
    exact Int.emod_eq_of_lt ha.1 (by omega)
  · rw [UartAccess.toInt, min_eq_left (by omega), max_eq_right (by omega), UartAccess.toUByte,
      Int.emod_eq_of_lt ha.1 ha.2, UInt8.toNat_ofNat']
    omega

theorem World.Inv.content_eq {c : Nat} {w : World ι β} (hc : c ≤ 253) (h : w.Inv c) (f : Fifo β) :
    w.content c f = (w.log f).accepted.drop (w.log f).removed := by
  have hcells : w.content c f = contents c (fun i => ((w.view f).slot i).1) (w.rptr f) (w.wptr f) := by
    refine contents_congr (fun i hi => ?_) _ _
    have hslot : 0 ≤ i ∧ i < 254 := by omega
    simp only [World.view, if_pos hslot]
  have hring : contents c (w.view f).slot (w.rptr f) (w.wptr f) = (w.log f).queue :=
    (h.view f).ring.contents_eq
  rw [hcells, contents_map, hring, Log.queue, List.map_drop, List.zipIdx_map_fst]

/-- A FIFO that was never reset. -/
theorem World.Inv.fifoExact {c : Nat} {w : World ι β} (hc : c ≤ 253) (h : w.Inv c) {f : Fifo β}
    (hresets : (w.log f).resets = []) : FifoExact c w f := by
  have hview := h.view f
  have hstamps : (w.log f).delivered.map Prod.fst = List.range (w.log f).removed := hview.exact hresets
  have hremoved : (w.log f).removed = (w.log f).delivered.length := by
    rw [← List.length_map (f := Prod.fst), hstamps, List.length_range]
  have hcontent := h.content_eq hc f
  have horder : ∀ (k stamp : Nat) (v : Int), (w.log f).delivered[k]? = some (stamp, v) →
      stamp = k ∧ ∃ a, (w.log f).accepted[k]? = some a ∧ Decodes a v := by
    intro k stamp v hx
    have hk : ((w.log f).delivered.map Prod.fst)[k]? = some stamp := by rw [List.getElem?_map, hx]; rfl
    rw [hstamps] at hk
    obtain ⟨hlt, hk⟩ := List.getElem?_eq_some_iff.mp hk
    rw [List.getElem_range] at hk
    obtain ⟨-, a, ha, hdec⟩ := hview.delivered _ (List.mem_of_getElem? hx)
    dsimp only at ha
    rw [← hk] at ha
    exact ⟨hk.symm, a, ha, hdec⟩
  refine ⟨hview.ring.read, hview.ring.write_range, by rw [hcontent, hremoved], ?_,
    horder, fun hbytes => ?_⟩
  · rw [hcontent, List.length_drop, Log.queued]
  · have hle : (w.log f).delivered.length ≤ (w.log f).accepted.length := hremoved ▸ hview.removed
    have htake : (w.log f).delivered.map Prod.snd =
        (w.log f).accepted.take (w.log f).delivered.length := by
      apply List.ext_getElem
      · rw [List.length_map, List.length_take, min_eq_left hle]
      · intro k h1 h2
        rw [List.length_map] at h1
        obtain ⟨-, a, ha, hdec⟩ := horder k _ _ (List.getElem?_eq_getElem h1)
        obtain ⟨hlt, ha⟩ := List.getElem?_eq_some_iff.mp ha
        rw [List.getElem_map, List.getElem_take, ha]
        exact hdec.byte (hbytes a (ha ▸ List.getElem_mem hlt))
    rw [htake, hcontent, hremoved, List.take_append_drop]

variable [DecidableEq ι] [DecidableEq β]

/-- One producer and one consumer for each FIFO, TX stores only after a Status read that showed
room, and no reset. -/
def Regular (W : Wiring ι β fun _ => false) (p : ι) (op : Op β) (w : World ι β) : Prop :=
  op.Connected W p ∧ op.Checked w ∧ ¬op.IsReset

/-- In every interleaving of the instructions of all parties. -/
theorem fifo_exact {c : Nat} (hc : 1 ≤ c ∧ c ≤ 253) (W : Wiring ι β fun _ => false)
    {t : Threads ι (World ι β) (List (Answer β))}
    (h : Reachable (Idle c) (Any (Regular W)) (apply (Op.body c fun _ => false)) t) :
    (∀ f, FifoExact c t.state f) ∧
    (∀ x ∈ t.state.dataWrites, x.2 ≠ uartRxRead ∧ x.2 ≠ uartRxWrite ∧
      x.2 ≠ uartTxRead ∧ x.2 ≠ uartTxWrite) ∧
    ∀ p answers, t.prog p = .ret answers → ∀ a ∈ answers, a.Exact c := by
  have hsound : Sound c W t := careful_sound hc
    (fun p op w hw hmay => ⟨hmay.1, hasRoom_of_checked hw hmay.2.1⟩)
    (careful_of_sole (fun p op w hmay => hmay.2.2) h)
  refine ⟨fun f => ?_, fun x hx => ?_, fun p answers hp a ha => ?_⟩
  · exact hsound.holds.fifoExact hc.2 (resets_eq_nil (fun p op w hmay => hmay.2.2) h f)
  · obtain ⟨⟨b, d⟩, -, hlo, hhi⟩ := hsound.holds.dataWrites x hx
    cases d <;>
      simp only [Fifo.start, uartTxStart, uartRxRead, uartRxWrite, uartTxRead,
        uartTxWrite] at hlo hhi ⊢ <;> omega
  · exact (hsound.done (Rely.refl W) hp) a ha rfl

/-! ## A processor and a host on one bank -/

/-- Party `true` is the processor. -/
def hostWiring : Wiring Bool Unit fun _ => false where
  produces p f := p = true ↔ f.dir = .tx
  consumes p f := p = true ↔ f.dir = .rx
  sole_producer _ p q _ hp hq := by cases p <;> cases q <;> simp_all
  sole_consumer _ p q hp hq := by cases p <;> cases q <;> simp_all
  shared_rx _ h := by cases h

def emptyBank : Threads Bool (World Bool Unit) (List (Answer Unit)) :=
  { state := .start fun _ _ => 0, prog := fun _ => .ret [] }

theorem emptyBank_idle (c : Nat) : Idle c emptyBank :=
  ⟨⟨_, rfl⟩, fun _ => ⟨⟨le_refl _, Int.natCast_nonneg c⟩, rfl⟩, fun _ => rfl⟩

/-- The processor checks the Status register and sends a byte, and the host receives it. -/
def sendByte : List (Event Bool (Op Unit)) :=
  .start true (.loadUartStatus () 0) :: List.replicate 5 (.step true) ++
    .start true (.storeUartTx () 65) :: List.replicate 6 (.step true) ++
      [.start false (.hostRead ()), .step false]

theorem fifo_exact_sendByte :
    FifoExact 2 (sendByte.foldl (apply (Op.body 2 fun _ => false)) emptyBank).state ⟨(), .tx⟩ ∧
    ((sendByte.foldl (apply (Op.body 2 fun _ => false)) emptyBank).state.log ⟨(), .tx⟩).delivered =
      [(0, 65)] := by
  refine ⟨(fifo_exact (by decide) hostWiring
    (Reachable.run (.init (emptyBank_idle 2)) sendByte fun i hi => ?_)).1 _,
    by decide⟩
  have hlen : i < 15 := hi
  interval_cases i <;> try trivial
  · exact ⟨by simp [Op.Connected, hostWiring], trivial, fun h => h⟩
  · exact ⟨by simp [Op.Connected, hostWiring], by rw [Op.Checked]; decide, fun h => h⟩
  · exact ⟨by simp [Op.Connected, hostWiring], trivial, fun h => h⟩

end Mlogv32.Uart
