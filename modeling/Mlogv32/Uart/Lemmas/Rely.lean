import Mlogv32.Uart.Lemmas.World

/-!
# What the parties rely on

The sole producer of a FIFO relies on its write pointer and its data cells, a consumer on its read
pointer. Where a FIFO has several producers, one of them relies on the same only between its write
of a data cell and its write of the pointer.
-/

namespace Mlogv32.Uart
open Cpu Mlog Logic

variable {ι β : Type} {shared : Fifo β → Bool} {W : Wiring ι β shared} {p q : ι} {f : Fifo β}

namespace Wiring

/-- No other party may touch the producer's side of the FIFO. -/
def Holds (W : Wiring ι β shared) (p : ι) (f : Fifo β) (l : Log ι) : Prop :=
  W.produces p f ∧ (shared f = false ∨ l.writing = some p)

theorem sole_tx (W : Wiring ι β shared) (b : β) : shared ⟨b, .tx⟩ = false := by
  by_contra h
  rw [Bool.not_eq_false] at h
  cases W.shared_rx _ h

theorem Holds.not_sole {l : Log ι} (h : W.Holds p f l) (hq : W.produces q f) (hne : p ≠ q) :
    shared f ≠ false ∧ l.writing = some p := by
  have hshared : shared f ≠ false := fun hs => hne (W.sole_producer f p q hs h.1 hq)
  exact ⟨hshared, h.2.resolve_left hshared⟩

end Wiring

/-- The changes of a FIFO that `p` relies on. -/
structure RelyAt (W : Wiring ι β shared) (p : ι) (f : Fifo β) (v v' : View ι) : Prop where
  accepted : v.log.accepted <+: v'.log.accepted
  removed : v.log.removed ≤ v'.log.removed
  producer : W.Holds p f v.log → v'.log.accepted = v.log.accepted ∧ v'.wptr = v.wptr ∧ v'.slot = v.slot ∧
    v'.log.writing = v.log.writing ∧ v'.log.ready = v.log.ready
  consumer : W.consumes p f → v'.rptr = v.rptr ∧ v'.log.dequeuing = v.log.dequeuing ∧
    (f.dir = .rx ∨ v.log.dequeuing = true → v'.log.removed = v.log.removed)

namespace RelyAt

variable {v v' v'' : View ι}

theorem refl (W : Wiring ι β shared) (p : ι) (f : Fifo β) (v : View ι) : RelyAt W p f v v :=
  ⟨List.prefix_refl _, le_refl _, fun _ => ⟨rfl, rfl, rfl, rfl, rfl⟩, fun _ => ⟨rfl, rfl, fun _ => rfl⟩⟩

theorem trans (h : RelyAt W p f v v') (h' : RelyAt W p f v' v'') : RelyAt W p f v v'' where
  accepted := h.accepted.trans h'.accepted
  removed := h.removed.trans h'.removed
  producer hp := by
    obtain ⟨h1, h2, h3, h4, h5⟩ := h.producer hp
    obtain ⟨h1', h2', h3', h4', h5'⟩ := h'.producer ⟨hp.1, hp.2.imp_right h4.trans⟩
    exact ⟨h1'.trans h1, h2'.trans h2, h3'.trans h3, h4'.trans h4, h5'.trans h5⟩
  consumer hc := by
    obtain ⟨h1, h2, h3⟩ := h.consumer hc
    obtain ⟨h1', h2', h3'⟩ := h'.consumer hc
    exact ⟨h1'.trans h1, h2'.trans h2, fun hf => (h3' (hf.imp_right h2.trans)).trans (h3 hf)⟩

/-! ## The actions of another party -/

variable (hpq : p ≠ q)

include hpq

theorem putData (hq : W.produces q f) (hfree : shared f = false ∨ v.log.writing = none)
    (slot value : Int) :
    RelyAt W p f v (v.putData q slot value) where
  accepted := List.prefix_refl _
  removed := le_refl _
  producer hp := by
    obtain ⟨hshared, hwriting⟩ := hp.not_sole hq hpq
    rcases hfree with hfree | hfree
    · exact absurd hfree hshared
    · rw [hfree] at hwriting
      cases hwriting
  consumer _ := ⟨rfl, rfl, fun _ => rfl⟩

theorem publish (hq : W.Holds q f v.log) (wptr value : Int) : RelyAt W p f v (v.publish wptr value) where
  accepted := List.prefix_append _ _
  removed := le_refl _
  producer hp := by
    obtain ⟨hshared, hwriting⟩ := hp.not_sole hq.1 hpq
    rw [hq.2.resolve_left hshared] at hwriting
    exact absurd (Option.some.inj hwriting).symm hpq
  consumer _ := ⟨rfl, rfl, fun _ => rfl⟩

theorem look (hq : W.consumes q f) (rptr : Int) : RelyAt W p f v (v.look rptr) where
  accepted := List.prefix_refl _
  removed := le_refl _
  producer _ := ⟨rfl, rfl, rfl, rfl, rfl⟩
  consumer hp := absurd (W.sole_consumer f p q hp hq) hpq

theorem release (hq : W.consumes q f) (rptr : Int) (stamp : Nat) (value : Int) (more : Bool) :
    RelyAt W p f v (v.release rptr stamp value more) where
  accepted := List.prefix_refl _
  removed := Nat.le_succ _
  producer _ := ⟨rfl, rfl, rfl, rfl, rfl⟩
  consumer hp := absurd (W.sole_consumer f p q hp hq) hpq

theorem resetRx (hq : W.consumes q f) (c : Nat) (rxWrite : Int) :
    RelyAt W p f v (v.resetRx c rxWrite) where
  accepted := List.prefix_refl _
  removed := Nat.le_add_right _ _
  producer _ := ⟨rfl, rfl, rfl, rfl, rfl⟩
  consumer hp := absurd (W.sole_consumer f p q hp hq) hpq

/-- A consumer that is not about to move the read pointer may find the FIFO emptied. -/
theorem resetTx (hq : W.produces q f) (hf : f.dir = .tx)
    (hremoved : v.log.removed ≤ v.log.accepted.length) (hidle : v.log.dequeuing = false)
    (txRead : Int) : RelyAt W p f v (v.resetTx txRead) where
  accepted := List.prefix_refl _
  removed := hremoved
  producer hp := by
    have hshared := (hp.not_sole hq hpq).1
    rw [ne_eq, Bool.not_eq_false] at hshared
    have hrx := W.shared_rx f hshared
    rw [hf] at hrx
    cases hrx
  consumer _ := by
    refine ⟨rfl, rfl, fun h => ?_⟩
    rw [hf, hidle] at h
    rcases h with h | h <;> cases h

theorem markReady (hq : W.produces q f) (hf : f.dir = .tx) : RelyAt W p f v v.markReady where
  accepted := List.prefix_refl _
  removed := le_refl _
  producer hp := by
    have hshared := (hp.not_sole hq hpq).1
    rw [ne_eq, Bool.not_eq_false] at hshared
    have hrx := W.shared_rx f hshared
    rw [hf] at hrx
    cases hrx
  consumer _ := ⟨rfl, rfl, fun _ => rfl⟩

end RelyAt

/-! ## Worlds -/

/-- The changes of a world that `p` relies on. -/
def Rely (W : Wiring ι β shared) (p : ι) (w w' : World ι β) : Prop :=
  ∀ f, RelyAt W p f (w.view f) (w'.view f)

theorem Rely.refl (W : Wiring ι β shared) (p : ι) (w : World ι β) :
    Rely W p w w := fun _ => .refl W p _ _

theorem Rely.trans (p : ι) (w w' w'' : World ι β) (h : Rely W p w w') (h' : Rely W p w' w'') :
    Rely W p w w'' := fun f => (h f).trans (h' f)

/-- Run by `p`, the program keeps the invariant and what the other parties rely on, and its result
has the property `post`. -/
abbrev Runs {α : Type} (c : Nat) (W : Wiring ι β shared) (p : ι) (post : α → Prop)
    (prog : Prog (World ι β) α) (w : World ι β) : Prop :=
  prog.Safe (World.Inv c) (Rely W) p (fun a _ => post a) w

end Mlogv32.Uart
