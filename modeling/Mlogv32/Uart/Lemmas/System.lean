import Mlogv32.Uart.Lemmas.Peripherals

/-!
# Runs of the system

Every operation of a connected party is a safe program, so that the invariant holds after every
careful run. Runs without resets in which no FIFO has two producers are all careful.
-/

namespace Mlogv32.Uart
open Cpu Mlog Logic Threads

variable {ι β : Type} [DecidableEq β] {shared : Fifo β → Bool} {W : Wiring ι β shared} {p : ι} {c : Nat}

/-! ## Operations -/

theorem body_runs (hc : 1 ≤ c ∧ c ≤ 253) {op : Op β} {w : World ι β} (hw : w.Inv c)
    (hconn : op.Connected W p) (hroom : op.HasRoom c w) :
    Runs c W p (AllExact c shared) (op.body c shared p) w := by
  cases op with
  | loadUartRx b mcause =>
      exact Runs.bind hw (loadUartRx_runs hc.2 hconn mcause w) fun r w' _ hr => Runs.ret hr
  | loadUartStatus b uartFlags =>
      exact Runs.bind hw (loadUartStatus_runs hconn.1 hconn.2 uartFlags w) fun r w' _ hr => Runs.ret hr
  | accessUart b => exact Runs.accessUart fun _ _ _ _ _ _ => Runs.ret .nil
  | storeUartTx b value =>
      exact Runs.bind hw (storeUartTx_runs hc.2 hconn value hw hroom) fun _ _ _ _ => Runs.ret .nil
  | storeUartControl b value =>
      exact Runs.bind hw (storeUartControl_runs hc.1 hconn.1 hconn.2 value w) fun _ _ _ _ =>
        Runs.ret .nil
  | link bank1 bank2 => exact round_runs hc.2 hconn.1 hconn.2 hw
  | waitForUart b letter => exact waitForUart_runs hc.2 hconn letter w
  | display b rounds => exact display_runs hc.2 hconn rounds w
  | scrollingDisplay b rounds => exact scrolling_runs hc.2 hconn rounds w
  | hostRead b => exact read_runs hc.2 hconn w
  | hostReadAll b => exact readAll_runs hc.2 hconn w
  | hostWrite b byte => exact write_runs hc.2 hconn byte w

omit [DecidableEq β] in
/-- A Status read that showed room still tells the truth. -/
theorem hasRoom_of_checked {op : Op β} {w : World ι β} (hw : w.Inv c) (h : op.Checked w) :
    op.HasRoom c w := by
  cases op with
  | storeUartTx b value => exact (hw.view ⟨b, .tx⟩).ready h
  | _ => trivial

/-! ## Operations that are no reset -/

/-- The action resets no FIFO, and does no harm where each FIFO has one producer. -/
def Harmless (shared : Fifo β → Bool) (ok : World ι β → Bool) (next : World ι β → World ι β) : Prop :=
  ∀ w, ((∀ f, shared f = false) → ok w = true) ∧
    (fun f => ((next w).log f).resets) = fun f => (w.log f).resets

section Harmless

variable {α : Type}

theorem resets_setLog {w : World ι β} {f : Fifo β} {l : Log ι} (h : l.resets = (w.log f).resets) :
    (fun g => (w.setLog f l g).resets) = fun g => (w.log g).resets := by
  funext g
  by_cases hg : g = f
  · subst hg
    rw [World.setLog_self, h]
  · rw [World.setLog_of_ne hg]

omit [DecidableEq β] in
theorem all_read {b : β} {i : Int} {k : Reading → Prog (World ι β) α}
    (hk : ∀ r, (k r).All (Harmless shared)) :
    (read b i >>= k).All (Harmless shared) := ⟨fun _ => ⟨fun _ => rfl, rfl⟩, fun _ => hk _⟩

theorem all_readWptr {f : Fifo β} {rptr : Int} {k : Reading → Prog (World ι β) α}
    (hk : ∀ r, (k r).All (Harmless shared)) : (readWptr f rptr >>= k).All (Harmless shared) :=
  ⟨fun _ => ⟨fun _ => rfl, resets_setLog rfl⟩, fun _ => hk _⟩

theorem all_writeRptr {f : Fifo β} {next : Int} {got : Reading} {value : Int} {more : Bool}
    {k : Unit → Prog (World ι β) α} (hk : (k ()).All (Harmless shared)) :
    (writeRptr f next got value more >>= k).All (Harmless shared) :=
  ⟨fun _ => ⟨fun _ => rfl, resets_setLog rfl⟩, fun _ => hk⟩

theorem all_writeData {f : Fifo β} {slot value : Int} {k : Unit → Prog (World ι β) α}
    (hk : (k ()).All (Harmless shared)) :
    (writeData c shared p f slot value >>= k).All (Harmless shared) :=
  ⟨fun _ => ⟨fun h => by rw [h]; rfl, resets_setLog rfl⟩, fun _ => hk⟩

theorem all_writeWptr {f : Fifo β} {next value : Int} {k : Unit → Prog (World ι β) α}
    (hk : (k ()).All (Harmless shared)) : (writeWptr f next value >>= k).All (Harmless shared) :=
  ⟨fun _ => ⟨fun _ => rfl, resets_setLog rfl⟩, fun _ => hk⟩

omit [DecidableEq β] in
theorem all_accessUart {b : β} {k : Worker.Access → Prog (World ι β) α}
    (hk : ∀ u, (k u).All (Harmless shared)) :
    (Worker.accessUart c b >>= k).All (Harmless shared) := by
  rw [accessUart_bind]
  exact all_read fun _ => all_read fun _ => all_read fun _ => all_read fun _ => hk _

omit [DecidableEq β] in
theorem all_ite {P : Prop} [Decidable P] {x y : Prog (World ι β) α} (hx : x.All (Harmless shared))
    (hy : y.All (Harmless shared)) :
    (if P then x else y).All (Harmless shared) := by
  split
  · exact hx
  · exact hy

theorem transfer_all (b b' : β) : (UartLink.transfer c shared p b b').All (Harmless shared) := by
  refine all_read fun _ => ?_
  refine all_readWptr fun _ => all_ite trivial ?_
  refine all_read fun _ => ?_
  refine all_read fun _ => all_ite trivial ?_
  refine all_read fun _ => ?_
  exact all_writeRptr (all_writeData (all_writeWptr trivial))

theorem display_main_all (b : β) (n : Nat) (rptr : Int) :
    (Display.main c b n rptr : Prog (World ι β) _).All (Harmless shared) := by
  induction n generalizing rptr with
  | zero => trivial
  | succ n ih =>
      refine all_readWptr fun _ => all_ite ?_ ?_
      · exact (ih rptr).bind fun _ => trivial
      · refine all_read fun _ => all_writeRptr ?_
        exact (ih _).bind fun _ => trivial

theorem scrolling_main_all (b : β) (n : Nat) (rxRead : Int) (rxWrite : Option Int) :
    (ScrollingDisplay.main c b n rxRead rxWrite : Prog (World ι β) _).All (Harmless shared) := by
  induction n generalizing rxRead rxWrite with
  | zero => trivial
  | succ n ih =>
      cases rxWrite with
      | none =>
          refine all_readWptr fun _ => ?_
          exact (ih _ _).bind fun _ => trivial
      | some x =>
          refine all_read fun _ => all_writeRptr ?_
          exact ih _ _

theorem resets_read (w : World ι β) (b : β) :
    (fun f => ((UartAccess.read c b w).2.log f).resets) = fun f => (w.log f).resets := by
  rw [UartAccess.read]
  dsimp only
  split
  · rfl
  · exact resets_setLog rfl

theorem resets_readAll (n : Nat) (w : World ι β) (b : β) :
    (fun f => ((UartAccess.readAll c b n w).2.log f).resets) = fun f => (w.log f).resets := by
  induction n generalizing w with
  | zero => rfl
  | succ n ih =>
      have hread := resets_read (c := c) w b
      rw [UartAccess.readAll]
      rcases hcase : UartAccess.read c b w with ⟨_ | byte, w'⟩
      · rw [hcase] at hread
        exact hread
      · rw [hcase] at hread
        exact (ih w').trans hread

theorem resets_write (w : World ι β) (b : β) (byte : UInt8) :
    (fun f => ((UartAccess.write c p b byte w).2.log f).resets) = fun f => (w.log f).resets := by
  rw [UartAccess.write]
  split
  · rfl
  · refine Eq.trans (resets_setLog ?_) (resets_setLog rfl)
    rfl

/-- Where no FIFO has two producers, only a reset can do harm. -/
theorem body_all {op : Op β} (h : ¬op.IsReset) : (op.body c shared p).All (Harmless shared) := by
  cases op with
  | loadUartRx b mcause =>
      refine Prog.All.bind ?_ fun _ => trivial
      refine all_accessUart fun _ => all_ite trivial (all_ite trivial ?_)
      exact all_read fun _ => all_writeRptr trivial
  | loadUartStatus b uartFlags =>
      refine Prog.All.bind ?_ fun _ => trivial
      refine all_accessUart fun _ => all_ite ?_ trivial
      exact ⟨fun _ => ⟨fun _ => rfl, resets_setLog rfl⟩, fun _ => trivial⟩
  | accessUart b => exact all_accessUart fun _ => trivial
  | storeUartTx b value =>
      refine Prog.All.bind ?_ fun _ => trivial
      exact all_accessUart fun _ => all_writeData (all_writeWptr trivial)
  | storeUartControl b value =>
      rw [Op.IsReset, not_or, not_not, not_not] at h
      refine Prog.All.bind (all_accessUart fun u => ?_) fun _ => trivial
      rw [h.1, h.2]
      exact trivial
  | link b b' =>
      refine Prog.All.bind (transfer_all b b') fun _ => ?_
      exact Prog.All.bind (transfer_all b' b) fun _ => trivial
  | waitForUart b letter =>
      refine all_read fun _ => all_read fun _ => all_ite trivial ?_
      exact all_writeData (all_writeWptr trivial)
  | display b rounds => exact all_read fun _ => display_main_all b rounds _
  | scrollingDisplay b rounds => exact all_read fun _ => scrolling_main_all b rounds _ _
  | hostRead b => exact ⟨fun w => ⟨fun _ => rfl, resets_read w b⟩, fun _ => trivial⟩
  | hostReadAll b => exact ⟨fun w => ⟨fun _ => rfl, resets_readAll _ w b⟩, fun _ => trivial⟩
  | hostWrite b byte =>
      exact ⟨fun w => ⟨fun h => by rw [h]; rfl, resets_write w b byte⟩, fun _ => trivial⟩

end Harmless

/-! ## Runs -/

/-- What holds after every action: the invariant, and that every party is inside a safe program. -/
abbrev Sound (c : Nat) (W : Wiring ι β shared) (t : Threads ι (World ι β) (List (Answer β))) : Prop :=
  Coherent (World.Inv c) (Rely W) (fun _ answers _ => AllExact c shared answers) t

omit [DecidableEq β] in
theorem start_inv {banks : β → Int → Int}
    (h : ∀ f, (0 ≤ (World.start banks : World ι β).rptr f ∧ (World.start banks : World ι β).rptr f ≤ c) ∧
      (World.start banks : World ι β).wptr f = (World.start banks : World ι β).rptr f) :
    (World.start banks : World ι β).Inv c where
  view f := by
    obtain ⟨hr, hw⟩ := h f
    refine ⟨⟨hr, Nat.zero_le _, ?_, fun k hk => ?_⟩, le_refl _, .nil, ?_, ?_, fun _ =>
      rfl, fun h => by cases h⟩
    · change (World.start banks : World ι β).wptr f = ((World.start banks : World ι β).rptr f + 0) % _
      rw [hw, Int.add_zero, wrap_self hr]
    · exact absurd hk (Nat.not_lt_zero k)
    · exact fun x hx => absurd hx List.not_mem_nil
    · exact fun x hx => absurd hx List.not_mem_nil
  dataWrites x hx := absurd hx List.not_mem_nil

omit [DecidableEq β] in
theorem idle_sound {t : Threads ι (World ι β) (List (Answer β))} (h : Idle c t) : Sound c W t := by
  obtain ⟨banks, hstate⟩ := h.state
  have hpointers := h.pointers
  refine ⟨?_, fun p => ?_⟩
  · rw [hstate] at hpointers ⊢
    exact start_inv hpointers
  · rw [h.prog p]
    exact fun _ _ _ => .nil

variable [DecidableEq ι]

/-- Careful runs keep the invariant. -/
theorem careful_sound (hc : 1 ≤ c ∧ c ≤ 253) {may : ι → Op β → World ι β → Prop}
    (hmay : ∀ p op w, w.Inv c → may p op w → op.Connected W p ∧ op.HasRoom c w)
    {t : Threads ι (World ι β) (List (Answer β))}
    (h : Reachable (Idle c) (Careful may) (apply (Op.body c shared)) t) : Sound c W t :=
  Coherent.reachable Rely.trans (Rely.refl W) (fun _ => idle_sound)
    (fun p op _ w hw _ h => body_runs hc hw (hmay p op w hw h).1 (hmay p op w hw h).2) h

section NoReset

variable {t : Threads ι (World ι β) (List (Answer β))}

omit [DecidableEq ι] [DecidableEq β] in
theorem idle_all (h : Idle c t) (p : ι) : (t.prog p).All (Harmless shared) := by
  rw [h.prog p]
  trivial

theorem resets_eq_nil {may : ι → Op β → World ι β → Prop} (hmay : ∀ p op w, may p op w → ¬op.IsReset)
    (h : Reachable (Idle c) (Any may) (apply (Op.body c shared)) t) (f : Fifo β) :
    (t.state.log f).resets = [] := by
  have hresets :=
    reachable_keeps (P := Harmless shared) (f := fun w f => (w.log f).resets) (c := fun _ => [])
    (fun _ _ hP w => (hP w).2) (fun p op w h => body_all (hmay p op w h)) (fun _ ht p => idle_all ht p)
    (fun t ht => by obtain ⟨banks, hstate⟩ := ht.state; rw [hstate]; rfl) h
  exact congrFun hresets f

/-- Where no FIFO has two producers, every run without resets is careful. -/
theorem careful_of_sole {may : ι → Op β → World ι β → Prop} (hmay : ∀ p op w, may p op w → ¬op.IsReset)
    (h : Reachable (Idle c) (Any may) (apply (Op.body c fun _ => false)) t) :
    Reachable (Idle c) (Careful may) (apply (Op.body c fun _ => false)) t :=
  reachable_careful (P := Harmless fun _ => false) (fun _ _ hP w => (hP w).1 fun _ => rfl)
    (fun p op w h => body_all (hmay p op w h)) (fun _ ht p => idle_all ht p) h

end NoReset

end Mlogv32.Uart
