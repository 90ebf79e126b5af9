import Mlogv32.Uart.Lemmas.Rules

/-!
# The accesses of the processor are safe
-/

namespace Mlogv32.Uart
open Cpu Mlog Logic

variable {ι β : Type} {shared : Fifo β → Bool} {W : Wiring ι β shared} {p : ι} {c : Nat} {b : β}

/-! ## Pointers -/

/-- What the consumer of RX knows after `access_uart`. -/
structure AccessRx (c : Nat) (W : Wiring ι β shared) (p : ι) (b : β) (u : Worker.Access)
    (v : View ι) : Prop where
  consumes : W.consumes p ⟨b, .rx⟩
  taking : u.rxRead.val ≠ u.rxWrite.val → Taking W p ⟨b, .rx⟩ v u.rxRead.val
  empty : u.rxRead.val = u.rxWrite.val ↔ u.rxWrite.queued = 0
  full : u.rxRead.val = opMod (u.rxWrite.val + 1) (c + 1) ↔ u.rxWrite.queued = c
  write : ∃ n : Nat, n ≤ v.log.queued ∧ u.rxWrite.val = (v.rptr + n) % (c + 1)

/-- What the producer of TX knows after `access_uart`. -/
structure AccessTx (c : Nat) (u : Worker.Access) (v : View ι) : Prop where
  write : u.txWrite.val = v.wptr
  next : u.nextTxWrite = opMod (u.txWrite.val + 1) (c + 1)
  empty : u.txRead.val = u.txWrite.val ↔ u.txRead.queued = 0
  full : u.txRead.val = u.nextTxWrite ↔ u.txRead.queued = c
  queued : u.txRead.queued ≤ c
  room : u.txRead.queued < c → v.log.queued < c

theorem AccessRx.of_reads {v1 v2 v : View ι} {u : Worker.Access} (hp : W.consumes p ⟨b, .rx⟩)
    (h2 : v2.Inv c) (h12 : RelyAt W p ⟨b, .rx⟩ v1 v2) (h2v : RelyAt W p ⟨b, .rx⟩ v2 v)
    (hread : u.rxRead.val = v1.rptr) (hwrite : u.rxWrite.val = v2.wptr)
    (hqueued : u.rxWrite.queued = v2.log.queued) : AccessRx c W p b u v := by
  have hr2 := (h12.consumer hp).1
  obtain ⟨hrv, -, hremoved⟩ := h2v.consumer hp
  have hlen := h2v.accepted.length_le
  have hqueued' : v2.log.queued ≤ v.log.queued := by
    rw [Log.queued, Log.queued, hremoved (.inl rfl)]
    omega
  refine ⟨hp, fun hne => ⟨hp, ?_, .inl rfl, ?_⟩, ?_, ?_, v2.log.queued, hqueued', ?_⟩
  · rw [hrv, hr2, hread]
  · rw [hread, ← hr2, hwrite, ne_eq, h2.empty_iff] at hne
    omega
  · rw [hread, ← hr2, hwrite, h2.empty_iff, hqueued]
  · rw [hread, ← hr2, hwrite, eq_comm, h2.full_iff, hqueued]
  · rw [hwrite, hrv, h2.ring.write, Log.queue_length]

theorem AccessTx.of_reads {v3 v : View ι} {u : Worker.Access} (hp : W.produces p ⟨b, .tx⟩)
    (h3 : v3.Inv c) (h3v : RelyAt W p ⟨b, .tx⟩ v3 v) (hread : u.txRead.val = v3.rptr)
    (hqueued : u.txRead.queued = v3.log.queued) (hwrite : u.txWrite.val = v.wptr)
    (hnext : u.nextTxWrite = opMod (u.txWrite.val + 1) (c + 1)) :
    AccessTx c u v := by
  obtain ⟨hacc, hwptr, -⟩ := h3v.producer ⟨hp, .inl (W.sole_tx b)⟩
  refine ⟨hwrite, hnext, ?_, ?_, ?_, fun h => ?_⟩
  · rw [hread, hwrite, hwptr, h3.empty_iff, hqueued]
  · rw [hnext, hread, hwrite, hwptr, eq_comm, h3.full_iff, hqueued]
  · rw [hqueued, ← Log.queue_length]
    exact h3.ring.length
  · exact (queued_le h3v hacc).trans_lt (hqueued ▸ h)

section Rules

variable {α : Type} {post : α → Prop} {w : World ι β}

theorem accessUart_bind (k : Worker.Access → Prog (World ι β) α) :
    Worker.accessUart c b >>= k = (do
      let rxRead ← read b uartRxRead
      let rxWrite ← read b uartRxWrite
      let txRead ← read b uartTxRead
      let txWrite ← read b uartTxWrite
      k ⟨rxRead, rxWrite, txRead, txWrite, opMod (txWrite.val + 1) (c + 1)⟩) := rfl

theorem Runs.accessUart {k : Worker.Access → Prog (World ι β) α}
    (h : ∀ u w', w'.Inv c → Rely W p w w' →
      (W.consumes p ⟨b, .rx⟩ → AccessRx c W p b u (w'.view ⟨b, .rx⟩)) →
      (W.produces p ⟨b, .tx⟩ → AccessTx c u (w'.view ⟨b, .tx⟩)) → Runs c W p post (k u) w') :
    Runs c W p post (Worker.accessUart c b >>= k) w := by
  rw [accessUart_bind]
  refine Runs.read fun w1 _ r1 => ?_
  refine Runs.read fun w2 hw2 r2 => ?_
  refine Runs.read fun w3 hw3 r3 => ?_
  refine Runs.read fun w4 hw4 r4 => ?_
  have r24 : Rely W p w2 w4 := Rely.trans p _ _ _ r3 r4
  refine h _ w4 hw4 (Rely.trans p _ _ _ r1 (Rely.trans p _ _ _ r2 r24)) (fun hp => ?_) fun hp => ?_
  · exact AccessRx.of_reads hp (hw2.view _) (r2 _) (r24 _) rfl rfl rfl
  · exact AccessTx.of_reads hp (hw3.view _) (r4 _) rfl rfl rfl rfl

theorem Taking.taken {f : Fifo β} {r i : Int} (h : Taking W p f (w.view f) r) (hinv : w.Inv c)
    (hc : c ≤ 253) (hi : i = f.start + r) : Taken W p f (w.view f) r (w.reading f.bank i) := by
  obtain ⟨hbyte, hstamp⟩ := (hinv.view f).head h.queued
  have hr := (hinv.view f).ring.read
  rw [h.rptr] at hbyte hstamp hr
  have hslot : (w.view f).slot r = (w.banks f.bank i, w.stamps f.bank i) := by
    rw [hi]
    exact if_pos (by omega)
  rw [hslot] at hbyte hstamp
  exact ⟨h, hbyte, hstamp⟩

end Rules

/-! ## Registers -/

/-- All answers of a list are right. -/
def AllExact (c : Nat) (shared : Fifo β → Bool) (answers : List (Answer β)) : Prop :=
  ∀ a ∈ answers, shared a.fifo = false → a.Exact c

variable [DecidableEq β]

theorem loadUartRx_runs (hc : c ≤ 253) (hp : W.consumes p ⟨b, .rx⟩) (mcause : Int) (w : World ι β) :
    Runs c W p (fun r => AllExact c shared r.2) (Worker.loadUartRx c b mcause) w := by
  refine Runs.accessUart fun u w1 _ _ hrx _ => ?_
  have hrx := hrx hp
  split
  · rename_i hempty
    refine Runs.ret fun a ha _ => ?_
    rw [List.mem_singleton.mp ha]
    simpa [Answer.Exact] using hrx.empty.mp hempty
  · rename_i hne
    have hexact : Answer.Exact c (⟨⟨b, .rx⟩, .empty, u.rxWrite.queued, false⟩ : Answer β) := by
      simpa [Answer.Exact] using fun h => hne (hrx.empty.mpr h)
    split
    · refine Runs.ret fun a ha _ => ?_
      rw [List.mem_singleton.mp ha]
      exact hexact
    · refine Runs.read fun w2 hw2 r2 => ?_
      have htaken :=
        ((hrx.taking hne).stable (r2 _)).taken hw2 hc (i := u.rxRead.val) (Int.zero_add _).symm
      refine Runs.writeRptr htaken (.inr (.inl rfl)) rfl fun w3 _ _ _ _ _ => Runs.ret fun a ha _ => ?_
      rw [List.mem_singleton.mp ha]
      exact hexact

/-- The bits of the Status register that tell the state of the FIFOs. -/
theorem statusWord_bits (c : Nat) (uartFlags : Int) (u : Worker.Access) :
    let result := Worker.statusWord c (opAnd uartFlags 0b10000) u
    (opAnd result 0b00100 ≠ 0 ↔ u.txRead.val = u.txWrite.val) ∧
    (opAnd result 0b01000 ≠ 0 ↔ u.txRead.val = u.nextTxWrite) ∧
    (opAnd result 0b00001 = 0 ↔ u.rxRead.val = u.rxWrite.val) ∧
    (opAnd result 0b00010 ≠ 0 ↔ u.rxRead.val = opMod (u.rxWrite.val + 1) (c + 1)) := by
  have hflag : opAnd uartFlags 0b10000 = 0 ∨ opAnd uartFlags 0b10000 = 16 := by
    rw [opAnd_mask uartFlags 4 1 (by decide) (by decide)]
    omega
  dsimp only [Worker.statusWord]
  rcases Classical.propComplete (u.txRead.val = u.txWrite.val) with h1 | h1 <;>
  rcases Classical.propComplete (u.txRead.val = u.nextTxWrite) with h2 | h2 <;>
  rcases Classical.propComplete (u.rxRead.val = u.rxWrite.val) with h3 | h3 <;>
  rcases Classical.propComplete (u.rxRead.val = opMod (u.rxWrite.val + 1) (c + 1)) with h4 | h4 <;>
  rcases hflag with hflag | hflag <;>
  simp only [h1, h2, h3, h4, hflag, ne_eq, not_true_eq_false, not_false_eq_true,
    if_true, if_false] <;> decide

theorem loadUartStatus_runs (hrx : W.consumes p ⟨b, .rx⟩) (htx : W.produces p ⟨b, .tx⟩) (uartFlags : Int)
    (w : World ι β) :
    Runs c W p (fun r => AllExact c shared r.2) (Worker.loadUartStatus c b uartFlags) w := by
  refine Runs.accessUart fun u w1 hw1 _ hrx' htx' => ?_
  have hrx' := hrx' hrx
  have htx' := htx' htx
  obtain ⟨h1, h2, h3, h4⟩ := statusWord_bits c uartFlags u
  dsimp only
  generalize Worker.statusWord c (opAnd uartFlags 0b10000) u = result at h1 h2 h3 h4
  have hexact : AllExact c shared
      [(⟨⟨b, .tx⟩, .empty, u.txRead.queued, opAnd result 0b00100 ≠ 0⟩ : Answer β),
       ⟨⟨b, .tx⟩, .full, u.txRead.queued, opAnd result 0b01000 ≠ 0⟩,
       ⟨⟨b, .rx⟩, .empty, u.rxWrite.queued, opAnd result 0b00001 = 0⟩,
       ⟨⟨b, .rx⟩, .full, u.rxWrite.queued, opAnd result 0b00010 ≠ 0⟩] := by
    intro a ha _
    simp only [List.mem_cons, List.not_mem_nil, or_false] at ha
    rcases ha with rfl | rfl | rfl | rfl
    · simpa only [Answer.Exact, decide_eq_true_eq] using h1.trans htx'.empty
    · simpa only [Answer.Exact, decide_eq_true_eq] using h2.trans htx'.full
    · simpa only [Answer.Exact, decide_eq_true_eq] using h3.trans hrx'.empty
    · simpa only [Answer.Exact, decide_eq_true_eq] using h4.trans hrx'.full
  split
  · rename_i hfull
    have hroom : (w1.view ⟨b, .tx⟩).log.queued < c := by
      refine htx'.room (lt_of_le_of_ne htx'.queued fun h => ?_)
      exact h2.mpr (htx'.full.mpr h) hfull
    have hstill : ∀ w2, Rely W p w1 w2 → (w2.view ⟨b, .tx⟩).log.queued < c := fun w2 hr =>
      (queued_le (hr _) ((hr _).producer ⟨htx, .inl (W.sole_tx b)⟩).1).trans_lt hroom
    exact Runs.act ⟨b, .tx⟩ (fun w2 hw2 hr _ => .markReady hw2 htx rfl (hstill w2 hr)) fun w2 _
      _ _ _ _ => Runs.ret hexact
  · exact Runs.ret hexact

theorem storeUartTx_runs (hc : c ≤ 253) (htx : W.produces p ⟨b, .tx⟩) (value : Int) {w : World ι β}
    (hinv : w.Inv c) (hroom : (w.log ⟨b, .tx⟩).queued < c) :
    Runs c W p (fun _ => True) (Worker.storeUartTx c shared p b value) w := by
  have hroom' : Room c W p ⟨b, .tx⟩ (w.view ⟨b, .tx⟩) (w.wptr ⟨b, .tx⟩) :=
    ⟨htx, (hinv.view _).ring.write_range, fun _ => ⟨rfl, hroom⟩⟩
  refine Runs.accessUart fun u w1 hw1 r1 _ htx' => ?_
  have htx' := htx' htx
  have hroom1 := hroom'.stable (r1 _)
  have hslot : w.wptr ⟨b, .tx⟩ = u.txWrite.val :=
    ((hroom1.sole (W.sole_tx b)).1.symm.trans htx'.write.symm)
  rw [hslot] at hroom1
  refine Runs.writeData hc hroom1 fun w2 _ _ hplaced _ => ?_
  exact Runs.writeWptr hplaced htx'.next fun w3 _ _ _ _ => Runs.ret trivial

theorem resetRx_runs {α : Type} {post : α → Prop} {u : Worker.Access} {w : World ι β}
    {k : Unit → Prog (World ι β) α} (h : AccessRx c W p b u (w.view ⟨b, .rx⟩))
    (hk : ∀ w', Runs c W p post (k ()) w') :
    Runs c W p post (Worker.resetRx c ⟨b, .rx⟩ u.rxWrite.val >>= k) w := by
  obtain ⟨n, hn, hwrite⟩ := h.write
  refine Runs.act ⟨b, .rx⟩ (fun w' hw' hr _ => ?_) fun w' _ _ _ _ _ => hk _
  obtain ⟨hrptr, -, hremoved⟩ := (hr ⟨b, .rx⟩).consumer h.consumes
  have hlen := (hr ⟨b, .rx⟩).accepted.length_le
  rw [hwrite, ← hrptr]
  refine .resetRx hw' h.consumes (hn.trans ?_)
  rw [Log.queued, Log.queued, hremoved (.inl rfl)]
  omega

theorem resetTx_runs (hc : 0 < c) (htx : W.produces p ⟨b, .tx⟩) (txRead : Int) (w : World ι β) :
    Runs c W p (fun _ => True) (Worker.resetTx ⟨b, .tx⟩ txRead) w := by
  have hok : ∀ w' : World ι β,
    (decide (w'.rptr ⟨b, .tx⟩ = txRead) && !(w'.log ⟨b, .tx⟩).dequeuing) = true →
      txRead = w'.rptr ⟨b, .tx⟩ ∧ (w'.view ⟨b, .tx⟩).log.dequeuing = false := by
    intro w' h
    rw [Bool.and_eq_true, decide_eq_true_eq, Bool.not_eq_true'] at h
    exact ⟨h.1.symm, h.2⟩
  refine Runs.act ⟨b, .tx⟩ (fun w' hw' _ h => ?_) fun w' _ _ _ _ _ => Runs.ret trivial
  rw [(hok w' h).1]
  exact .resetTx hw' hc htx rfl (hok w' h).2

theorem storeUartControl_runs (hc : 0 < c) (hrx : W.consumes p ⟨b, .rx⟩) (htx : W.produces p ⟨b, .tx⟩)
    (value : Int) (w : World ι β) :
    Runs c W p (fun _ => True) (Worker.storeUartControl c b value) w := by
  refine Runs.accessUart fun u w1 _ _ hrx' _ => ?_
  have htail : ∀ w', Runs c W p (fun _ => True)
      (if opAnd value 0b01 ≠ 0 then Worker.resetTx ⟨b, .tx⟩ u.txRead.val else pure ()) w' := by
    intro w'
    split
    · exact resetTx_runs hc htx _ w'
    · exact Runs.ret trivial
  dsimp only
  by_cases hreset : opAnd value 0b10 ≠ 0
  · rw [if_pos hreset]
    exact resetRx_runs (hrx' hrx) htail
  · rw [if_neg hreset]
    exact htail w1

end Mlogv32.Uart
