import Mlogv32.Uart.Lemmas.Rely

/-!
# Rules for the instructions

A consumer goes from `Taking`, where it has found the FIFO not empty, to `Taken`, where it has read
the byte, and then moves the read pointer. A producer goes from `Room`, where it has found the FIFO
not full, to `Placed`, where it has written the byte, and then moves the write pointer.
-/

namespace Mlogv32.Uart
open Cpu Mlog Logic

variable {ι β : Type} {shared : Fifo β → Bool} {W : Wiring ι β shared} {p : ι} {f : Fifo β} {c : Nat}

/-! ## Consumers -/

structure Taking (W : Wiring ι β shared) (p : ι) (f : Fifo β) (v : View ι) (r : Int) : Prop where
  consumes : W.consumes p f
  rptr : v.rptr = r
  committed : f.dir = .rx ∨ v.log.dequeuing = true
  queued : 0 < v.log.queued

structure Taken (W : Wiring ι β shared) (p : ι) (f : Fifo β) (v : View ι) (r : Int)
    (got : Reading) : Prop
    extends Taking W p f v r where
  byte : v.log.accepted[v.log.removed]? = some got.val
  stamp : got.stamp = v.log.removed

/-! ## Producers -/

structure Room (c : Nat) (W : Wiring ι β shared) (p : ι) (f : Fifo β) (v : View ι)
    (slot : Int) : Prop where
  produces : W.produces p f
  range : 0 ≤ slot ∧ slot ≤ c
  sole : shared f = false → v.wptr = slot ∧ v.log.queued < c

structure Placed (c : Nat) (W : Wiring ι β shared) (p : ι) (f : Fifo β) (v : View ι) (slot value : Int) :
    Prop where
  holds : W.Holds p f v.log
  wptr : v.wptr = slot
  queued : v.log.queued < c
  cell : v.slot slot = (value, v.log.accepted.length)
  ready : v.log.ready = false

section Stable

variable {v v' : View ι} {r slot value : Int}

theorem Taking.stable (h : Taking W p f v r) (hr : RelyAt W p f v v') : Taking W p f v' r := by
  obtain ⟨h1, h2, h3⟩ := hr.consumer h.consumes
  refine ⟨h.consumes, h1.trans h.rptr, h.committed.imp_right h2.trans, ?_⟩
  have hq := h.queued
  have hlen := hr.accepted.length_le
  have hremoved := h3 h.committed
  rw [Log.queued] at hq ⊢
  omega

theorem Taken.stable {got : Reading} (h : Taken W p f v r got) (hr : RelyAt W p f v v') :
    Taken W p f v' r got := by
  have hremoved := (hr.consumer h.consumes).2.2 h.committed
  refine ⟨h.toTaking.stable hr, ?_, by rw [hremoved, h.stamp]⟩
  obtain ⟨t, ht⟩ := hr.accepted
  obtain ⟨hlt, -⟩ := List.getElem?_eq_some_iff.mp h.byte
  rw [hremoved, ← ht, List.getElem?_append_left hlt]
  exact h.byte

theorem queued_le (hr : RelyAt W p f v v') (hacc : v'.log.accepted = v.log.accepted) :
    v'.log.queued ≤ v.log.queued := by
  have hremoved := hr.removed
  rw [Log.queued, Log.queued, hacc]
  omega

theorem Room.stable (h : Room c W p f v slot) (hr : RelyAt W p f v v') : Room c W p f v' slot := by
  refine ⟨h.produces, h.range, fun hs => ?_⟩
  obtain ⟨hacc, hwptr, -⟩ := hr.producer ⟨h.produces, .inl hs⟩
  obtain ⟨h1, h2⟩ := h.sole hs
  exact ⟨hwptr.trans h1, (queued_le hr hacc).trans_lt h2⟩

theorem Placed.stable (h : Placed c W p f v slot value) (hr : RelyAt W p f v v') :
    Placed c W p f v' slot value := by
  obtain ⟨hacc, hwptr, hslot, hwriting, hready⟩ := hr.producer h.holds
  exact ⟨⟨h.holds.1, h.holds.2.imp_right hwriting.trans⟩, hwptr.trans h.wptr,
    (queued_le hr hacc).trans_lt h.queued, by rw [hslot, h.cell, hacc], hready.trans h.ready⟩

end Stable

/-! ## Changes -/

/-- What one action of `p` on the FIFO `f` does. -/
structure Change (c : Nat) (W : Wiring ι β shared) (p : ι) (f : Fifo β) (w w' : World ι β) : Prop where
  others : ∀ g, g ≠ f → w'.view g = w.view g
  inv : (w'.view f).Inv c
  data : ∀ x ∈ w'.dataWrites, x ∈ w.dataWrites ∨ (x.1 = f.bank ∧ f.start ≤ x.2 ∧ x.2 ≤ f.start + c)
  rely : ∀ j, j ≠ p → RelyAt W j f (w.view f) (w'.view f)

namespace Change

variable {w w' w'' : World ι β}

theorem refl (h : w.Inv c) : Change c W p f w w :=
  ⟨fun _ _ => rfl, h.view f, fun _ hx => .inl hx, fun j _ => .refl W j f _⟩

theorem trans (h : Change c W p f w w') (h' : Change c W p f w' w'') : Change c W p f w w'' :=
  ⟨fun g hg => (h'.others g hg).trans (h.others g hg), h'.inv,
    fun x hx => (h'.data x hx).elim (h.data x) .inr, fun j hj => (h.rely j hj).trans (h'.rely j hj)⟩

theorem world (h : Change c W p f w w') (hw : w.Inv c) : w'.Inv c where
  view g := by
    by_cases hg : g = f
    · subst hg
      exact h.inv
    · rw [h.others g hg]
      exact hw.view g
  dataWrites x hx := by
    rcases h.data x hx with hx | hx
    · exact hw.dataWrites x hx
    · exact ⟨f, hx⟩

theorem rely_world (h : Change c W p f w w') {j : ι} (hj : j ≠ p) : Rely W j w w' := by
  intro g
  by_cases hg : g = f
  · subst hg
    exact h.rely j hj
  · rw [h.others g hg]
    exact .refl W j g _

variable [DecidableEq β]

theorem look (hw : w.Inv c) (hp : W.consumes p f) (rptr : Int) : Change c W p f w (w.look f rptr) where
  others g hg := World.view_look_of_ne hg rptr
  inv := by
    rw [World.view_look]
    exact (hw.view f).look rptr
  data _ hx := .inl hx
  rely j hj := by
    rw [World.view_look]
    exact .look hj hp rptr

theorem release (hw : w.Inv c) (hp : W.consumes p f) (hq : 0 < (w.view f).log.queued) {value : Int}
    (hvalue : Decodes ((w.view f).slot (w.rptr f)).1 value) (more : Bool) :
    Change c W p f w
      (w.release f (opMod (w.rptr f + 1) (c + 1)) ((w.view f).slot (w.rptr f)).2 value more) where
  others g hg := World.view_release_of_ne hg _ _ _ _
  inv := by
    rw [World.view_release]
    exact (hw.view f).release hq hvalue more
  data _ hx := .inl hx
  rely j hj := by
    rw [World.view_release]
    exact .release hj hp _ _ _ _

theorem putData (hw : w.Inv c) (hc : c ≤ 253) (hp : W.produces p f)
    (hfree : shared f = false ∨ (w.view f).log.writing = none) (value : Int) :
    Change c W p f w (w.putData p f (w.wptr f) value) := by
  have hrange := (hw.view f).ring.write_range
  have hslot : 0 ≤ w.wptr f ∧ w.wptr f < 254 := ⟨hrange.1, lt_of_le_of_lt hrange.2 (by omega)⟩
  refine ⟨fun g hg => World.view_putData_of_ne hg p hslot value, ?_, fun x hx => ?_, fun j hj => ?_⟩
  · rw [World.view_putData p hslot]
    exact (hw.view f).putData p rfl value
  · rcases List.mem_cons.mp hx with rfl | hx
    · exact .inr ⟨rfl, Int.le_add_of_nonneg_right hrange.1, Int.add_le_add_left hrange.2 _⟩
    · exact .inl hx
  · rw [World.view_putData p hslot]
    exact .putData hj hp hfree _ _

theorem publish (hw : w.Inv c) {value : Int} (hplaced : Placed c W p f (w.view f) (w.wptr f) value) :
    Change c W p f w (w.publish f (opMod (w.wptr f + 1) (c + 1)) value) where
  others g hg := World.view_publish_of_ne hg _ _
  inv := by
    rw [World.view_publish]
    exact (hw.view f).publish hplaced.queued hplaced.cell hplaced.ready
  data _ hx := .inl hx
  rely j hj := by
    rw [World.view_publish]
    exact .publish hj hplaced.holds _ _

theorem resetRx (hw : w.Inv c) (hp : W.consumes p f) {n : Nat} (hn : n ≤ (w.view f).log.queued) :
    Change c W p f w (w.resetRx c f ((w.rptr f + n) % (c + 1))) where
  others g hg := World.view_resetRx_of_ne hg c _
  inv := by
    rw [World.view_resetRx]
    exact (hw.view f).resetRx hn
  data _ hx := .inl hx
  rely j hj := by
    rw [World.view_resetRx]
    exact .resetRx hj hp c _

theorem resetTx (hw : w.Inv c) (hc : 0 < c) (hp : W.produces p f) (hf : f.dir = .tx)
    (hidle : (w.view f).log.dequeuing = false) : Change c W p f w (w.resetTx f (w.rptr f)) where
  others g hg := World.view_resetTx_of_ne hg _
  inv := by
    rw [World.view_resetTx]
    exact (hw.view f).resetTx hc
  data _ hx := .inl hx
  rely j hj := by
    rw [World.view_resetTx]
    exact .resetTx hj hp hf (hw.view f).removed hidle _

theorem markReady (hw : w.Inv c) (hp : W.produces p f) (hf : f.dir = .tx)
    (hroom : (w.view f).log.queued < c) : Change c W p f w (w.markReady f) where
  others g hg := World.view_markReady_of_ne hg
  inv := by
    rw [World.view_markReady]
    exact (hw.view f).markReady hroom
  data _ hx := .inl hx
  rely j hj := by
    rw [World.view_markReady]
    exact .markReady hj hp hf

/-- The byte that a producer has put in place, after its own action. -/
theorem placed_putData (hw : w.Inv c) (hc : c ≤ 253) (hp : W.produces p f)
    (hq : (w.view f).log.queued < c) (value : Int) :
    Placed c W p f ((w.putData p f (w.wptr f) value).view f) (w.wptr f) value := by
  have hrange := (hw.view f).ring.write_range
  have hslot : 0 ≤ w.wptr f ∧ w.wptr f < 254 := ⟨hrange.1, lt_of_le_of_lt hrange.2 (by omega)⟩
  rw [World.view_putData p hslot]
  exact ⟨⟨hp, .inr rfl⟩, rfl, hq, Function.update_self _ _ _, rfl⟩

end Change

/-! ## Rules -/

section Rules

variable {α : Type} {post : α → Prop} {w : World ι β}

theorem Runs.ret {a : α} (h : post a) : Runs c W p post (.ret a) w := fun _ _ _ => h

theorem Runs.bind {γ : Type} {post' : γ → Prop} {prog : Prog (World ι β) γ} {k : γ → Prog (World ι β) α}
    (hw : w.Inv c) (h : Runs c W p post' prog w)
    (hk : ∀ a w', w'.Inv c → post' a → Runs c W p post (k a) w') : Runs c W p post (prog >>= k) w :=
  Prog.Safe.bind (Rely.refl W p) hw h hk

theorem Runs.read {b : β} {i : Int} {k : Reading → Prog (World ι β) α}
    (h : ∀ w', w'.Inv c → Rely W p w w' → Runs c W p post (k (w'.reading b i)) w') :
    Runs c W p post (Uart.read b i >>= k) w :=
  fun w' hinv hrely _ => ⟨⟨hinv, fun j _ => Rely.refl W j w'⟩, h w' hinv hrely⟩

theorem Runs.act (f : Fifo β) {ok : World ι β → Bool} {next : World ι β → World ι β}
    {k : World ι β → Prog (World ι β) α}
    (hchange : ∀ w', w'.Inv c → Rely W p w w' → ok w' = true → Change c W p f w' (next w'))
    (h : ∀ w', w'.Inv c → Rely W p w w' → ok w' = true → (next w').Inv c →
      (∀ g, g ≠ f → RelyAt W p g (w.view g) ((next w').view g)) → Runs c W p post (k w') (next w')) :
    Runs c W p post (.act ok next k) w := by
  intro w' hw' hr hok
  have hch := hchange w' hw' hr hok
  refine ⟨⟨hch.world hw', fun j hj => hch.rely_world hj⟩, h w' hw' hr hok (hch.world hw') fun g hg => ?_⟩
  rw [hch.others g hg]
  exact hr g

variable [DecidableEq β]

theorem Runs.readWptr {rptr : Int} {k : Reading → Prog (World ι β) α} (hp : W.consumes p f)
    (h : ∀ w', w'.Inv c → Rely W p w w' → (w'.look f rptr).Inv c →
      (∀ g, g ≠ f → RelyAt W p g (w.view g) ((w'.look f rptr).view g)) →
      Runs c W p post (k (w'.reading f.bank f.wptrCell)) (w'.look f rptr)) :
    Runs c W p post (Uart.readWptr f rptr >>= k) w :=
  Runs.act f (fun _ hw' _ _ => .look hw' hp rptr) fun w' hw' hr _ => h w' hw' hr

theorem Runs.writeRptr {r next : Int} {got : Reading} {value : Int} {more : Bool}
    {k : Unit → Prog (World ι β) α} (ht : Taken W p f (w.view f) r got) (hvalue : Decodes got.val value)
    (hnext : next = opMod (r + 1) (c + 1))
    (h : ∀ w', w'.Inv c → Rely W p w w' → Taken W p f (w'.view f) r got →
      (w'.release f next got.stamp value more).Inv c →
      (∀ g, g ≠ f → RelyAt W p g (w.view g) ((w'.release f next got.stamp value more).view g)) →
      Runs c W p post (k ()) (w'.release f next got.stamp value more)) :
    Runs c W p post (Uart.writeRptr f next got value more >>= k) w := by
  refine Runs.act f (fun w' hw' hr _ => ?_) fun w' hw' hr _ => h w' hw' hr (ht.stable (hr f))
  have ht' := ht.stable (hr f)
  obtain ⟨hbyte, hstamp⟩ := (hw'.view f).head ht'.queued
  rw [ht'.byte, Option.some_inj] at hbyte
  have hrelease := Change.release hw' ht'.consumes ht'.queued (hbyte ▸ hvalue) more
  have hrptr : w'.rptr f = r := ht'.rptr
  change ((w'.view f).slot (w'.rptr f)).2 = _ at hstamp
  rw [hstamp, ← ht'.stamp, hrptr, ← hnext] at hrelease
  exact hrelease

theorem Runs.writeData {slot value : Int} {k : Unit → Prog (World ι β) α} (hc : c ≤ 253)
    (hroom : Room c W p f (w.view f) slot)
    (h : ∀ w', w'.Inv c → Rely W p w w' →
      Placed c W p f ((w'.putData p f slot value).view f) slot value →
      (∀ g, g ≠ f → RelyAt W p g (w.view g) ((w'.putData p f slot value).view g)) →
      Runs c W p post (k ()) (w'.putData p f slot value)) :
    Runs c W p post (Uart.writeData c shared p f slot value >>= k) w := by
  -- a sole producer has seen the room, for the others it is the condition of the action
  have hfree : ∀ w', Rely W p w w' → (!shared f || (w'.log f).writing.isNone &&
      decide (w'.wptr f = slot ∧ (w'.log f).queued < c)) = true →
      (shared f = false ∨ (w'.view f).log.writing = none) ∧ w'.wptr f = slot ∧
        (w'.view f).log.queued < c := by
    intro w' hr hok
    cases hs : shared f with
    | false => exact ⟨.inl rfl, (hroom.stable (hr f)).sole hs⟩
    | true =>
        rw [hs] at hok
        simp only [Bool.not_true, Bool.false_or, Bool.and_eq_true, Option.isNone_iff_eq_none,
          decide_eq_true_eq] at hok
        exact ⟨.inr hok.1, hok.2⟩
  refine Runs.act f (fun w' hw' hr hok => ?_) fun w' hw' hr hok _ => h w' hw' hr ?_
  · obtain ⟨hwriting, hslot, -⟩ := hfree w' hr hok
    rw [← hslot]
    exact .putData hw' hc hroom.produces hwriting value
  · obtain ⟨-, hslot, hqueued⟩ := hfree w' hr hok
    rw [← hslot]
    exact Change.placed_putData hw' hc hroom.produces hqueued value

theorem Runs.writeWptr {slot value next : Int} {k : Unit → Prog (World ι β) α}
    (hplaced : Placed c W p f (w.view f) slot value) (hnext : next = opMod (slot + 1) (c + 1))
    (h : ∀ w', w'.Inv c → Rely W p w w' → (w'.publish f next value).Inv c →
      (∀ g, g ≠ f → RelyAt W p g (w.view g) ((w'.publish f next value).view g)) →
      Runs c W p post (k ()) (w'.publish f next value)) :
    Runs c W p post (Uart.writeWptr f next value >>= k) w := by
  refine Runs.act f (fun w' hw' hr _ => ?_) fun w' hw' hr _ => h w' hw' hr
  have hplaced' := hplaced.stable (hr f)
  have hslot : w'.wptr f = slot := hplaced'.wptr
  rw [← hslot] at hplaced' hnext
  rw [hnext]
  exact .publish hw' hplaced'

end Rules

end Mlogv32.Uart
