import Mlogv32.Logic.Reachable
import Mlogv32.Logic.Ring
import Mlogv32.Logic.Wp
import Mlogv32.Uart.Interrupts

/-!
# Recorded pointers

The controller packs the recorded pointers of the four ports into two numbers, a byte for each. A
poll changes the byte of a FIFO and the flag of its port as the edge detector of the FIFO says, and
the byte tells how far the pointer has moved since.
-/

namespace Mlogv32.Uart
open Cpu Mlog Logic

/-! ## Bytes of a number -/

/-- Byte `u` of a number. -/
def byteOf (a : Int) (u : Fin 4) : Int := opAnd (opShr a (u.val * 8)) 0xff

theorem bit_ff (i : Nat) : bit 0xff i = decide (i < 8) := by
  rcases Nat.lt_or_ge i 64 with hi | hi
  · interval_cases i <;> rfl
  · rw [bit_of_le hi, decide_eq_false (by omega)]

theorem bit_byteOf (a : Int) (u : Fin 4) {i : Nat} (hi : i < 64) :
    bit (byteOf a u) i = (bit a (i + u.val * 8) && decide (i < 8)) := by
  rw [byteOf, bit_opAnd, bit_ff]
  by_cases h : i < 8
  · have hu := u.isLt
    have hshr := bit_opShr a (k := u.val * 8) (by omega) (i := i) (by omega)
    push_cast at hshr
    rw [hshr]
  · simp [h]

theorem long_byteOf (a : Int) (u : Fin 4) : (long (byteOf a u)).toInt = byteOf a u := by
  rw [byteOf, long_opAnd]
  rfl

theorem byteOf_congr {a b : Int} {u v : Fin 4}
    (h : ∀ i < 8, bit a (i + u.val * 8) = bit b (i + v.val * 8)) :
    byteOf a u = byteOf b v := by
  rw [← long_byteOf a, ← long_byteOf b]
  refine congrArg BitVec.toInt (long_ext fun i hi => ?_)
  rw [bit_byteOf a u hi, bit_byteOf b v hi]
  by_cases hlt : i < 8
  · rw [h i hlt]
  · simp [hlt]

/-- The low byte of a byte is the byte itself. -/
theorem byteOf_zero {v : Int} (h : 0 ≤ v ∧ v < 256) : byteOf v 0 = v := by
  have hpow : (0xff : Int) = 2 ^ 8 - 1 := by decide
  have hshr : opShr v 0 = v := by
    have h := opShr_eq v 0 (by decide) (by omega) (by omega)
    rwa [pow_zero, Int.ediv_one] at h
  rw [byteOf, Fin.val_zero, Nat.cast_zero, zero_mul, hshr, hpow, opAnd_low v 8 (by decide)]
  exact Int.emod_eq_of_lt h.1 h.2

/-- The write of a byte into a number. -/
def setByte (a : Int) (u : Fin 4) (v : Int) : Int :=
  opOr (opAnd a (opNot (opShl 0xff (u.val * 8)))) (opShl v (u.val * 8))

theorem bit_setByte {v : Int} (hv : 0 ≤ v ∧ v < 256) (a : Int) (u : Fin 4) {i : Nat} (hi : i < 64) :
    bit (setByte a u v) i =
      if u.val * 8 ≤ i ∧ i < u.val * 8 + 8 then bit v (i - u.val * 8) else bit a i := by
  have hu := u.isLt
  have hk : u.val * 8 < 64 := by omega
  have hmask := bit_opShl 0xff hk hi
  have hval := bit_opShl v hk hi
  push_cast at hmask hval
  rw [setByte, bit_opOr, bit_opAnd, bit_opNot _ hi, hmask, hval, bit_ff]
  by_cases hlo : u.val * 8 ≤ i
  · by_cases hhi : i < u.val * 8 + 8
    · have hlt : i - u.val * 8 < 8 := by omega
      simp [hlo, hhi, hlt]
    · have hge : 8 ≤ i - u.val * 8 := by omega
      have hzero : bit v (i - u.val * 8) = false := bit_of_lt hv.1 hv.2 hge
      have hnlt : ¬i - u.val * 8 < 8 := by omega
      simp [hhi, hzero, hnlt]
  · simp [hlo]

theorem byteOf_setByte {v : Int} (hv : 0 ≤ v ∧ v < 256) (a : Int) (u : Fin 4) :
    byteOf (setByte a u v) u = v := by
  have hu := u.isLt
  have h : byteOf (setByte a u v) u = byteOf v 0 := by
    refine byteOf_congr fun i hi => ?_
    rw [bit_setByte hv a u (by omega), if_pos (by omega)]
    congr 1
    rw [Fin.val_zero]
    omega
  rw [h, byteOf_zero hv]

theorem byteOf_setByte_of_ne {v : Int} (hv : 0 ≤ v ∧ v < 256) (a : Int) {u u' : Fin 4} (h : u' ≠ u) :
    byteOf (setByte a u v) u' = byteOf a u' := by
  have hu := u.isLt
  have hu' := u'.isLt
  have hne : u'.val ≠ u.val := fun he => h (Fin.ext he)
  refine byteOf_congr fun i hi => ?_
  rw [bit_setByte hv a u (by omega), if_neg (by omega)]

/-! ## The edge detector -/

section

variable {u : Fin 4} {quiet : Bool} {ptr : Int} (uartFlags ptrs : Int)

theorem updateUartPtr_eq : updateUartPtr u.val quiet ptr uartFlags ptrs =
    if quiet then (uartFlags, setByte ptrs u 0xff)
    else if byteOf ptrs u = ptr then (uartFlags, ptrs)
    else (opOr uartFlags (opShl 1 u.val), setByte ptrs u ptr) := rfl

theorem byteOf_updateUartPtr (hptr : 0 ≤ ptr ∧ ptr < 256) :
    byteOf (updateUartPtr u.val quiet ptr uartFlags ptrs).2 u = if quiet then 0xff else ptr := by
  rw [updateUartPtr_eq]
  cases quiet with
  | true => exact byteOf_setByte (by decide) ptrs u
  | false =>
      rw [if_neg Bool.false_ne_true, if_neg Bool.false_ne_true]
      split
      · assumption
      · exact byteOf_setByte hptr ptrs u

theorem byteOf_updateUartPtr_of_ne (hptr : 0 ≤ ptr ∧ ptr < 256) {u' : Fin 4} (h : u' ≠ u) :
    byteOf (updateUartPtr u.val quiet ptr uartFlags ptrs).2 u' = byteOf ptrs u' := by
  rw [updateUartPtr_eq]
  split
  · exact byteOf_setByte_of_ne (by decide) ptrs h
  · split
    · rfl
    · exact byteOf_setByte_of_ne hptr ptrs h

theorem bit_updateUartPtr {i : Nat} (hi : i < 64) :
    bit (updateUartPtr u.val quiet ptr uartFlags ptrs).1 i =
      (bit uartFlags i || decide (i = u.val ∧ quiet = false ∧ byteOf ptrs u ≠ ptr)) := by
  rw [updateUartPtr_eq]
  cases quiet with
  | true => simp
  | false =>
      rw [if_neg Bool.false_ne_true]
      by_cases h : byteOf ptrs u = ptr
      · simp [h]
      · have hu : u.val < 64 := Nat.lt_trans u.isLt (by decide)
        have hone : bit (opShl 1 u.val) i = decide (i = u.val) := by
          have hone : bit 1 (i - u.val) = decide (i - u.val = 0) := bit_two_pow (k := 0) (by decide) _
          rw [bit_opShl 1 hu hi, hone, Bool.eq_iff_iff, Bool.and_eq_true,
            decide_eq_true_iff, decide_eq_true_iff, decide_eq_true_iff]
          omega
        rw [if_neg h, bit_opOr, hone]
        simp [h]

end

/-! ## Polls -/

namespace Ports

variable {p : Ports} {f : Fifo (Fin 4)}

theorem prevPtr_eq (p : Ports) (f : Fifo (Fin 4)) :
    p.prevPtr f = byteOf (interruptPtrs p.controller f.dir) f.bank := rfl

/-- What a poll has done after the ports of `l`. -/
structure Polled (p : Ports) (l : List (Fin 4)) (r : Int × Controller) : Prop where
  prevPtr : ∀ f : Fifo (Fin 4), byteOf (interruptPtrs r.2 f.dir) f.bank =
    if f.bank ∈ l then if p.Idle f then 0xff else p.ptr f else p.prevPtr f
  uartFlags : ∀ i < 64, bit r.1 i = true ↔
    bit p.uartFlags i = true ∨ ∃ f : Fifo (Fin 4), f.bank ∈ l ∧ i = f.bank.val ∧ p.Raises f

theorem polled_nil (p : Ports) : Polled p [] (p.uartFlags, p.controller) where
  prevPtr f := by rw [if_neg List.not_mem_nil, prevPtr_eq]
  uartFlags i _ := by simp

/-- One iteration of the loop runs the two detectors of a port. -/
theorem updateUartFlagsStep_eq (p : Ports) (r : Int × Controller) (u : Fin 4) :
    updateUartFlagsStep p.uarts r u.val =
      let rx :=
        updateUartPtr u.val (decide (p.Idle ⟨u, .rx⟩)) (p.ptr ⟨u, .rx⟩) r.1 r.2.uartRxInterruptPtrs
      let tx :=
        updateUartPtr u.val (decide (p.Idle ⟨u, .tx⟩)) (p.ptr ⟨u, .tx⟩) rx.1 r.2.uartTxInterruptPtrs
      (tx.1, { uartRxInterruptPtrs := rx.2, uartTxInterruptPtrs := tx.2 }) := rfl

theorem prevPtr_updateUartFlagsStep (hptr : ∀ f, 0 ≤ p.ptr f ∧ p.ptr f < 256) (r : Int × Controller)
    (u : Fin 4) (f : Fifo (Fin 4)) :
    byteOf (interruptPtrs (updateUartFlagsStep p.uarts r u.val).2 f.dir) f.bank =
      if f.bank = u then if p.Idle f then 0xff else p.ptr f
      else byteOf (interruptPtrs r.2 f.dir) f.bank := by
  obtain ⟨b, d⟩ := f
  rw [updateUartFlagsStep_eq]
  by_cases hb : b = u
  · subst hb
    rw [if_pos rfl]
    cases d with
    | rx =>
        refine (byteOf_updateUartPtr _ _ (hptr ⟨b, .rx⟩)).trans ?_
        simp only [decide_eq_true_eq]
    | tx =>
        refine (byteOf_updateUartPtr _ _ (hptr ⟨b, .tx⟩)).trans ?_
        simp only [decide_eq_true_eq]
  · rw [if_neg hb]
    cases d with
    | rx => exact byteOf_updateUartPtr_of_ne _ _ (hptr ⟨u, .rx⟩) hb
    | tx => exact byteOf_updateUartPtr_of_ne _ _ (hptr ⟨u, .tx⟩) hb

/-- The detectors of a port that the loop has not reached yet see its recorded pointers. -/
theorem bit_updateUartFlagsStep {r : Int × Controller} {u : Fin 4}
    (hprev : ∀ d, byteOf (interruptPtrs r.2 d) u = p.prevPtr ⟨u, d⟩) {i : Nat} (hi : i < 64) :
    bit (updateUartFlagsStep p.uarts r u.val).1 i = true ↔
      bit r.1 i = true ∨ i = u.val ∧ (p.Raises ⟨u, .rx⟩ ∨ p.Raises ⟨u, .tx⟩) := by
  have hrx : byteOf r.2.uartRxInterruptPtrs u = p.prevPtr ⟨u, .rx⟩ := hprev .rx
  have htx : byteOf r.2.uartTxInterruptPtrs u = p.prevPtr ⟨u, .tx⟩ := hprev .tx
  rw [updateUartFlagsStep_eq]
  dsimp only
  rw [bit_updateUartPtr _ _ hi, bit_updateUartPtr _ _ hi, hrx, htx]
  simp only [Bool.or_eq_true, decide_eq_true_eq, decide_eq_false_iff_not, Raises]
  tauto

theorem Polled.step {l : List (Fin 4)} {r : Int × Controller} (h : Polled p l r)
    (hptr : ∀ f, 0 ≤ p.ptr f ∧ p.ptr f < 256) {u : Fin 4} (hu : u ∉ l) :
    Polled p (u :: l) (updateUartFlagsStep p.uarts r u.val) where
  prevPtr f := by
    rw [prevPtr_updateUartFlagsStep hptr, h.prevPtr]
    by_cases hb : f.bank = u
    · rw [if_pos hb, if_pos (List.mem_cons.mpr (.inl hb))]
    · simp only [hb, List.mem_cons, if_false, false_or]
  uartFlags i hi := by
    have hprev : ∀ d, byteOf (interruptPtrs r.2 d) u = p.prevPtr ⟨u, d⟩ := by
      intro d
      have hbyte := h.prevPtr ⟨u, d⟩
      rwa [if_neg hu] at hbyte
    rw [bit_updateUartFlagsStep hprev hi, h.uartFlags i hi, or_assoc]
    refine or_congr_right ⟨?_, ?_⟩
    · rintro (⟨f, hf, hif, hraises⟩ | ⟨hif, hraises | hraises⟩)
      · exact ⟨f, List.mem_cons_of_mem _ hf, hif, hraises⟩
      · exact ⟨⟨u, .rx⟩, List.mem_cons_self, hif, hraises⟩
      · exact ⟨⟨u, .tx⟩, List.mem_cons_self, hif, hraises⟩
    · rintro ⟨⟨b, d⟩, hf, hif, hraises⟩
      rcases List.mem_cons.mp hf with rfl | hf
      · cases d with
        | rx => exact .inr ⟨hif, .inl hraises⟩
        | tx => exact .inr ⟨hif, .inr hraises⟩
      · exact .inl ⟨⟨b, d⟩, hf, hif, hraises⟩

theorem polled_poll (hptr : ∀ f, 0 ≤ p.ptr f ∧ p.ptr f < 256) :
    Polled p [3, 2, 1, 0] (p.poll.uartFlags, p.poll.controller) :=
  ((((polled_nil p).step hptr (u := 0) (by decide)).step hptr (u := 1) (by decide)).step hptr
    (u := 2) (by decide)).step hptr (u := 3) (by decide)

theorem mem_ports : ∀ u : Fin 4, u ∈ [3, 2, 1, 0] := by decide

theorem prevPtr_poll (hptr : ∀ f, 0 ≤ p.ptr f ∧ p.ptr f < 256) (f : Fifo (Fin 4)) :
    p.poll.prevPtr f = if p.Idle f then 0xff else p.ptr f := by
  rw [prevPtr_eq]
  refine ((polled_poll hptr).prevPtr f).trans ?_
  rw [if_pos (mem_ports _)]

/-- A poll sets the ip bit of a port when it raises an interrupt for one of its FIFOs. -/
theorem ip_poll (hptr : ∀ f, 0 ≤ p.ptr f ∧ p.ptr f < 256) (u : Fin 4) :
    p.poll.ip u = true ↔ p.ip u = true ∨ ∃ d, p.Raises ⟨u, d⟩ := by
  have hu : u.val < 64 := Nat.lt_trans u.isLt (by decide)
  refine ((polled_poll hptr).uartFlags u.val hu).trans (or_congr_right ⟨?_, ?_⟩)
  · rintro ⟨⟨b, d⟩, -, hb, hraises⟩
    obtain rfl : u = b := Fin.ext hb
    exact ⟨d, hraises⟩
  · rintro ⟨d, hraises⟩
    exact ⟨⟨u, d⟩, mem_ports u, rfl, hraises⟩

/-! ## Accesses -/

/-- All pointers are cells of a FIFO. -/
def InRange (c : Nat) (p : Ports) : Prop :=
  ∀ f, (0 ≤ p.rptr f ∧ p.rptr f ≤ c) ∧ 0 ≤ p.wptr f ∧ p.wptr f ≤ c

theorem InRange.ptr {c : Nat} (h : InRange c p) (f : Fifo (Fin 4)) : 0 ≤ p.ptr f ∧ p.ptr f ≤ c := by
  obtain ⟨b, d⟩ := f
  cases d with
  | rx => exact (h _).1
  | tx => exact (h _).2

/-! Each write of a cell changes at most one pointer. -/

section

variable (uarts : Uarts) (f f' : Fifo (Fin 4)) (v : Int)

theorem writeUart_apply (u i u' i' : Int) :
    writeUart uarts u i v u' i' = if u' = u ∧ i' = i then v else uarts u' i' := rfl

theorem rptr_writeRptr : writeUart uarts f.bank.val f.rptrCell v f'.bank.val f'.rptrCell =
    if f' = f then v else uarts f'.bank.val f'.rptrCell := by
  obtain ⟨b, d⟩ := f
  obtain ⟨b', d'⟩ := f'
  rw [writeUart_apply]
  cases d <;> cases d' <;> simp [Fifo.rptrCell, uartRxRead, uartTxRead, Fin.val_inj]

theorem wptr_writeRptr : writeUart uarts f.bank.val f.rptrCell v f'.bank.val f'.wptrCell =
    uarts f'.bank.val f'.wptrCell := by
  obtain ⟨b, d⟩ := f
  obtain ⟨b', d'⟩ := f'
  rw [writeUart_apply]
  cases d <;> cases d' <;>
    simp [Fifo.rptrCell, Fifo.wptrCell, uartRxRead, uartTxRead, uartRxWrite, uartTxWrite]

theorem wptr_writeWptr : writeUart uarts f.bank.val f.wptrCell v f'.bank.val f'.wptrCell =
    if f' = f then v else uarts f'.bank.val f'.wptrCell := by
  obtain ⟨b, d⟩ := f
  obtain ⟨b', d'⟩ := f'
  rw [writeUart_apply]
  cases d <;> cases d' <;> simp [Fifo.wptrCell, uartRxWrite, uartTxWrite, Fin.val_inj]

theorem rptr_writeWptr : writeUart uarts f.bank.val f.wptrCell v f'.bank.val f'.rptrCell =
    uarts f'.bank.val f'.rptrCell := by
  obtain ⟨b, d⟩ := f
  obtain ⟨b', d'⟩ := f'
  rw [writeUart_apply]
  cases d <;> cases d' <;>
    simp [Fifo.rptrCell, Fifo.wptrCell, uartRxRead, uartTxRead, uartRxWrite, uartTxWrite]

theorem writeData_apply {slot : Int} (h : 0 ≤ slot ∧ slot ≤ 253) {i : Int}
    (hi : i = f'.rptrCell ∨ i = f'.wptrCell) :
    writeUart uarts f.bank.val (slot + f.start) v f'.bank.val i = uarts f'.bank.val i := by
  rw [writeUart_apply, if_neg]
  rintro ⟨-, hcell⟩
  obtain ⟨b, d⟩ := f
  obtain ⟨b', d'⟩ := f'
  cases d <;> cases d' <;>
    simp only [Fifo.start, Fifo.rptrCell, Fifo.wptrCell, uartTxStart,
      uartRxRead, uartTxRead, uartRxWrite, uartTxWrite] at hcell hi <;> omega

end

/-- An access moves at most one pointer, by one cell. -/
structure Advance (c : Nat) (p p' : Ports) : Prop where
  rptr : ∀ f, p'.rptr f = p.rptr f ∨ p'.rptr f = (p.rptr f + 1) % (c + 1)
  wptr : ∀ f, p'.wptr f = p.wptr f ∨ p'.wptr f = (p.wptr f + 1) % (c + 1)
  controller : p'.controller = p.controller

theorem Advance.refl (c : Nat) (p : Ports) : Advance c p p := ⟨fun _ => .inl rfl, fun _ => .inl rfl, rfl⟩

theorem Advance.ptr {c : Nat} {p' : Ports} (h : Advance c p p') (f : Fifo (Fin 4)) :
    p'.ptr f = p.ptr f ∨ p'.ptr f = (p.ptr f + 1) % (c + 1) := by
  obtain ⟨b, d⟩ := f
  cases d with
  | rx => exact h.rptr _
  | tx => exact h.wptr _

theorem Advance.inRange {c : Nat} {p' : Ports} (h : Advance c p p') (hp : p.InRange c) :
    p'.InRange c := by
  have hmod : ∀ x : Int, 0 ≤ (x + 1) % (c + 1) ∧ (x + 1) % (c + 1) ≤ c := by
    intro x
    have hlo := Int.emod_nonneg (x + 1) (b := c + 1) (by omega)
    have hhi := Int.emod_lt_of_pos (x + 1) (b := (c : Int) + 1) (by omega)
    omega
  intro f
  constructor
  · rcases h.rptr f with hr | hr <;> rw [hr]
    · exact (hp f).1
    · exact hmod _
  · rcases h.wptr f with hw | hw <;> rw [hw]
    · exact (hp f).2
    · exact hmod _

theorem opMod_next (cfg : Config) {x : Int} (h : 0 ≤ x) :
    opMod (x + 1) cfg.uartFifoModulo = (x + 1) % (cfg.uartFifoCapacity + 1) := by
  have hpos : 0 < cfg.uartFifoModulo := by rw [PageConfig.uartFifoModulo]; omega
  rw [opMod_eq (by omega) hpos, PageConfig.uartFifoModulo]

variable {cfg : Config}

theorem advance_enqueue (hc : cfg.uartFifoCapacity ≤ 253) (hp : p.InRange cfg.uartFifoCapacity)
    (f : Fifo (Fin 4)) (value : Int) : Advance cfg.uartFifoCapacity p (p.enqueue cfg f value) := by
  have hw := (hp f).2
  rw [enqueue]
  dsimp only
  split
  · exact .refl _ p
  · refine ⟨fun f' => .inl ?_, fun f' => ?_, rfl⟩
    · exact (rptr_writeWptr _ f f' _).trans (writeData_apply _ f f' _ (by omega) (.inl rfl))
    · dsimp only [Ports.wptr]
      rw [wptr_writeWptr, ← Ports.wptr, writeData_apply _ f f' _ (by omega) (.inr rfl)]
      split
      · rename_i hf
        rw [hf, opMod_next cfg hw.1]
        exact .inr rfl
      · exact .inl rfl

theorem advance_dequeue (hp : p.InRange cfg.uartFifoCapacity) (f : Fifo (Fin 4)) :
    Advance cfg.uartFifoCapacity p (p.dequeue cfg f) := by
  rw [dequeue]
  split
  · exact .refl _ p
  · refine ⟨fun f' => ?_, fun f' => .inl (wptr_writeRptr _ f f' _), rfl⟩
    dsimp only [Ports.rptr]
    rw [rptr_writeRptr]
    split
    · rename_i hf
      rw [hf]
      exact .inr (opMod_next cfg (hp f).1.1)
    · exact .inl rfl

theorem advance_loadStatus (c : Nat) (p : Ports) (u : Fin 4) : Advance c p (p.loadStatus u) := by
  rw [loadStatus]
  split
  · exact .refl _ p
  · exact ⟨fun _ => .inl rfl, fun _ => .inl rfl, rfl⟩

theorem advance_apply (hc : cfg.uartFifoCapacity ≤ 253) (hp : p.InRange cfg.uartFifoCapacity)
    {e : PortEvent} (he : e ≠ .poll) : Advance cfg.uartFifoCapacity p (p.apply cfg e) := by
  cases e with
  | enqueue f value => exact advance_enqueue hc hp f value
  | dequeue f => exact advance_dequeue hp f
  | loadStatus u => exact advance_loadStatus _ p u
  | poll => exact absurd rfl he

/-! ## The same events in the processor and the controller -/

theorem ofMachine_tick (m : Machine) (delta : NNRat) :
    ofMachine (m.tick delta) = (ofMachine m).poll := rfl

theorem ofMachine_reset (cfg : Config) (m : Machine) : ofMachine (m.reset cfg) =
    poll { uarts := m.hart.uarts, uartFlags := 0,
           controller :=
             { uartRxInterruptPtrs := 0xffffffff, uartTxInterruptPtrs := 0xffffffff } } := rfl

section

variable {s : Hart} {offset : Int} {b : Fin 4}

/-- `access_uart` finds the pointers of the port. -/
structure AtPort (cfg : Config) (p : Ports) (s : Hart) (b : Fin 4) (u : UartAccess) : Prop where
  uarts : p.uarts = s.uarts
  uartFlags : p.uartFlags = s.uartFlags
  uartShift : u.uartShift = b.val
  rxRead : u.rxRead = p.rptr ⟨b, .rx⟩
  rxWrite : u.rxWrite = p.wptr ⟨b, .rx⟩
  txRead : u.txRead = p.rptr ⟨b, .tx⟩
  txWrite : u.txWrite = p.wptr ⟨b, .tx⟩
  nextTxWrite : u.nextTxWrite = opMod (p.wptr ⟨b, .tx⟩ + 1) cfg.uartFifoModulo

theorem atPort_accessUart (c : Controller) (hb : (accessUart cfg s offset).uartShift = b.val) :
    AtPort cfg { uarts := s.uarts, uartFlags := s.uartFlags, controller := c } s b
      (accessUart cfg s offset) := by
  have hbank : opIdiv (offset - uartRxOffset) uartMmioSize = b.val := hb
  refine ⟨rfl, rfl, hb, ?_, ?_, ?_, ?_, ?_⟩ <;> dsimp only [accessUart] <;> rw [hbank] <;> rfl

variable {u : UartAccess}

theorem AtPort.storeUartTx (h : AtPort cfg p s b u) (hfull : u.nextTxWrite ≠ u.txRead) (value : Int) :
    (storeUartTx s u value).uarts = (p.enqueue cfg ⟨b, .tx⟩ value).uarts := by
  rw [h.nextTxWrite, h.txRead] at hfull
  rw [enqueue]
  dsimp only
  rw [if_neg hfull, Cpu.storeUartTx, h.txWrite, h.nextTxWrite, h.uartShift, h.uarts]
  rfl

theorem AtPort.loadUartRx (h : AtPort cfg p s b u) {mcause : Int} (hload : mcause ≠ 7) :
    ∃ value, loadUartRx cfg u mcause s = .ok value
      { s with uarts := (p.dequeue cfg ⟨b, .rx⟩).uarts } := by
  rw [Cpu.loadUartRx, bind_get, dequeue, h.rxRead, h.rxWrite, h.uartShift]
  by_cases hempty : p.rptr ⟨b, .rx⟩ = p.wptr ⟨b, .rx⟩
  · rw [if_pos hempty, if_pos hempty, h.uarts]
    exact ⟨_, rfl⟩
  · rw [if_neg hempty, if_neg hload, if_neg hempty, h.uarts]
    exact ⟨_, rfl⟩

theorem AtPort.loadUartStatus (h : AtPort cfg p s b u) : ∃ value csrMip, loadUartStatus cfg u s =
    .ok value { s with uartFlags := (p.loadStatus b).uartFlags, csrMip := csrMip } := by
  have hflags : (p.loadStatus b).uartFlags =
      if opAnd s.uartFlags (opShl 1 b.val) = 0 then s.uartFlags
      else opAnd s.uartFlags (opNot (opAnd s.uartFlags (opShl 1 b.val))) := by
    rw [loadStatus, h.uartFlags]
    split
    · exact h.uartFlags
    · rfl
  rw [Cpu.loadUartStatus, bind_get, h.uartShift, hflags]
  by_cases hmask : opAnd s.uartFlags (opShl 1 b.val) = 0
  · rw [if_pos hmask]
    exact ⟨_, s.csrMip, by rw [if_neg (not_not.mpr hmask)]; rfl⟩
  · rw [if_neg hmask]
    exact ⟨_, _, by rw [if_pos hmask]; rfl⟩

end

end Ports

/-! ## Runs -/

namespace Watched

/-- The byte of a FIFO that a poll has found idle is no pointer. Otherwise it is where the pointer
was when the last interrupt was raised. -/
structure Inv (c : Nat) (w : Watched) : Prop where
  inRange : w.ports.InRange c
  noticed : ∀ f, (w.history f).noticed = true → w.ports.prevPtr f = 0xff
  moved : ∀ f, (w.history f).noticed = false →
    w.ports.ptr f = (w.ports.prevPtr f + (w.history f).moves) % (c + 1) ∧
      0 ≤ w.ports.prevPtr f ∧ w.ports.prevPtr f ≤ c

variable {cfg : Config} {w : Watched}

theorem Start.inv (h : Start cfg w) : Inv cfg.uartFifoCapacity w where
  inRange := h.pointers
  noticed := by
    rintro ⟨b, d⟩ -
    rw [Ports.prevPtr, h.controller]
    cases d <;> revert b <;> decide
  moved := by
    intro f hf
    rw [h.history f] at hf
    cases hf

theorem history_access {e : PortEvent} (he : e ≠ .poll) (f : Fifo (Fin 4)) :
    (w.apply cfg e).history f =
      { w.history f with
        idle := (w.history f).idle || decide ((w.ports.apply cfg e).Idle f)
        moves := if (w.ports.apply cfg e).ptr f = w.ports.ptr f then (w.history f).moves
          else (w.history f).moves + 1 } := by
  cases e with
  | poll => exact absurd rfl he
  | _ => rfl

theorem Inv.access (hc : cfg.uartFifoCapacity ≤ 253) (h : Inv cfg.uartFifoCapacity w) {e : PortEvent}
    (he : e ≠ .poll) : Inv cfg.uartFifoCapacity (w.apply cfg e) := by
  have hadv := Ports.advance_apply hc h.inRange he
  have hprev : ∀ f, (w.apply cfg e).ports.prevPtr f = w.ports.prevPtr f := by
    intro f
    rw [Ports.prevPtr_eq, Ports.prevPtr_eq]
    exact congrArg (fun c => byteOf (Ports.interruptPtrs c f.dir) f.bank) hadv.controller
  refine ⟨hadv.inRange h.inRange, fun f hf => ?_, fun f hf => ?_⟩
  · rw [history_access he] at hf
    rw [hprev]
    exact h.noticed f hf
  · rw [history_access he] at hf
    obtain ⟨hptr, hrange⟩ := h.moved f hf
    rw [hprev, history_access he]
    refine ⟨?_, hrange⟩
    dsimp only [apply]
    split
    · rename_i hsame
      rw [hsame, hptr]
    · rename_i hmoved
      rw [(hadv.ptr f).resolve_left hmoved, hptr, Int.emod_add_emod, Nat.cast_add,
        Nat.cast_one, Int.add_assoc]

theorem Inv.ptr {c : Nat} (hc : c ≤ 253) (h : Inv c w) (f : Fifo (Fin 4)) :
    0 ≤ w.ports.ptr f ∧ w.ports.ptr f < 256 := by
  have hptr := h.inRange.ptr f
  omega

/-- A poll raises an interrupt for each FIFO that is not idle, unless its pointer is where it was
when the last interrupt was raised. -/
theorem Inv.raises_iff (hc : cfg.uartFifoCapacity ≤ 253) (h : Inv cfg.uartFifoCapacity w)
    (f : Fifo (Fin 4)) :
    w.ports.Raises f ↔ ¬w.ports.Idle f ∧ w.Visible cfg f := by
  have hptr := h.inRange.ptr f
  refine and_congr_right fun _ => ?_
  rw [Visible]
  cases hnoticed : (w.history f).noticed with
  | true =>
      rw [h.noticed f hnoticed]
      exact iff_of_true (by omega) (.inl rfl)
  | false =>
      obtain ⟨hmoved, hrange⟩ := h.moved f hnoticed
      have hsame : w.ports.prevPtr f = w.ports.ptr f ↔ cfg.uartFifoCapacity +
          1 ∣ (w.history f).moves := by
        rw [hmoved, eq_comm]
        exact wrap_add_eq_self hrange _
      simp [hsame]

theorem Inv.poll (hc : cfg.uartFifoCapacity ≤ 253) (h : Inv cfg.uartFifoCapacity w) :
    Inv cfg.uartFifoCapacity (w.apply cfg .poll) := by
  have hprev := Ports.prevPtr_poll (h.ptr hc)
  have hhist : ∀ f, (w.apply cfg .poll).history f =
      if w.ports.Raises f then { idle := false, noticed := false, moves := 0 }
      else { w.history f with noticed := (w.history f).noticed || decide (w.ports.Idle f) } :=
        fun _ => rfl
  refine ⟨h.inRange, fun f hf => (hprev f).trans ?_, fun f hf => ?_⟩
  · rw [hhist] at hf
    by_cases hidle : w.ports.Idle f
    · rw [if_pos hidle]
    · -- a FIFO that was noticed before would have raised an interrupt
      by_cases hraises : w.ports.Raises f
      · rw [if_pos hraises] at hf
        cases hf
      · rw [if_neg hraises] at hf
        have hnoticed : (w.history f).noticed = true := by simpa [hidle] using hf
        exact absurd ((h.raises_iff hc f).mpr ⟨hidle, .inl hnoticed⟩) hraises
  · have hptr : 0 ≤ w.ports.ptr f ∧ w.ports.ptr f ≤ cfg.uartFifoCapacity := h.inRange.ptr f
    have hidle : ¬w.ports.Idle f := by
      intro hidle
      have hraises : ¬w.ports.Raises f := fun hraises => hraises.1 hidle
      rw [hhist, if_neg hraises] at hf
      simp [hidle] at hf
    have hprev' : (w.apply cfg .poll).ports.prevPtr f = w.ports.ptr f := (hprev f).trans (if_neg hidle)
    have hptr' : (w.apply cfg .poll).ports.ptr f = w.ports.ptr f := rfl
    rw [hprev', hptr', eq_comm, wrap_add_eq_self hptr]
    refine ⟨?_, hptr⟩
    rw [hhist] at hf ⊢
    by_cases hraises : w.ports.Raises f
    · rw [if_pos hraises]
      exact dvd_zero _
    · rw [if_neg hraises]
      by_contra hmoves
      exact hraises ((h.raises_iff hc f).mpr ⟨hidle, .inr hmoves⟩)

theorem Inv.apply (hc : cfg.uartFifoCapacity ≤ 253) (h : Inv cfg.uartFifoCapacity w) (e : PortEvent) :
    Inv cfg.uartFifoCapacity (w.apply cfg e) := by
  by_cases he : e = .poll
  · rw [he]
    exact h.poll hc
  · exact h.access hc he

theorem inv_of_reachable (hc : cfg.uartFifoCapacity ≤ 253)
    (h : Reachable (Start cfg) (fun _ _ => True) (apply cfg) w) : Inv cfg.uartFifoCapacity w :=
  h.invariant (fun _ hw => hw.inv) fun _ e hw _ => hw.apply hc e

end Watched

end Mlogv32.Uart
