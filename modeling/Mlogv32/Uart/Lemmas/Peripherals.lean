import Mlogv32.Uart.Lemmas.Worker

/-!
# The programs of the other parties are safe
-/

namespace Mlogv32.Uart
open Cpu Mlog Logic

variable {ι β : Type} {shared : Fifo β → Bool} {W : Wiring ι β shared} {p : ι} {f : Fifo β} {c : Nat}

/-! ## Empty and full -/

/-- The comparison that a producer makes, with the write pointer that only it moves. -/
theorem View.Inv.full_iff_slot {v : View ι} (h : v.Inv c) {slot : Int} (hslot : v.wptr = slot) :
    v.rptr = opMod (slot + 1) (c + 1) ↔ v.log.queued = c := by
  rw [← hslot, eq_comm, h.full_iff]

theorem Room.of_not_full {v : View ι} (h : v.Inv c) (hp : W.produces p f) {slot : Int}
    (hrange : 0 ≤ slot ∧ slot ≤ c) (hslot : shared f = false → v.wptr = slot)
    (hne : v.rptr ≠ opMod (slot + 1) (c + 1)) : Room c W p f v slot := by
  refine ⟨hp, hrange, fun hs => ⟨hslot hs, lt_of_le_of_ne ?_ fun hfull => ?_⟩⟩
  · rw [← Log.queue_length]
    exact h.ring.length
  · exact hne ((h.full_iff_slot (hslot hs)).mpr hfull)

theorem Answer.exact_full {f : Fifo β} {n : Nat} {said : Bool} (h : said = true ↔ n = c) :
    Answer.Exact c (⟨f, .full, n, said⟩ : Answer β) := h

theorem Answer.exact_empty {f : Fifo β} {n : Nat} {said : Bool} (h : said = true ↔ n = 0) :
    Answer.Exact c (⟨f, .empty, n, said⟩ : Answer β) := h

theorem AllExact.nil : AllExact c shared ([] : List (Answer β)) := fun _ h => absurd h List.not_mem_nil

theorem AllExact.cons {a : Answer β} {as : List (Answer β)} (ha : shared a.fifo = false → a.Exact c)
    (has : AllExact c shared as) : AllExact c shared (a :: as) := by
  intro x hx
  rcases List.mem_cons.mp hx with rfl | hx
  · exact ha
  · exact has x hx

theorem AllExact.append {as bs : List (Answer β)} (ha : AllExact c shared as)
    (hb : AllExact c shared bs) :
    AllExact c shared (as ++ bs) := fun x hx => (List.mem_append.mp hx).elim (ha x) (hb x)

variable [DecidableEq β] {w : World ι β}

section Rules

variable {α : Type} {post : α → Prop}

/-- A consumer compares the write pointer with its own pointer `r`. -/
theorem Runs.poll {r : Int} {k : Reading → Prog (World ι β) α} (hp : W.consumes p f)
    (hr : (w.view f).rptr = r)
    (h : ∀ w' got, w'.Inv c → (w'.view f).rptr = r → (r = got.val ↔ got.queued = 0) →
      (r ≠ got.val → Taking W p f (w'.view f) r) →
      (∃ n : Nat, n ≤ (w'.view f).log.queued ∧ got.val = (r + n) % (c + 1)) →
      (∀ g, g ≠ f → RelyAt W p g (w.view g) (w'.view g)) → Runs c W p post (k got) w') :
    Runs c W p post (Uart.readWptr f r >>= k) w := by
  refine Runs.readWptr hp fun w' hw' hrely hinv hothers => ?_
  have hrptr : (w'.view f).rptr = r := ((hrely f).consumer hp).1.trans hr
  have hhalf : half f.wptrCell = f.dir := by
    obtain ⟨b, d⟩ := f
    cases d <;> rfl
  have hqueued : (w'.reading f.bank f.wptrCell).queued = (w'.view f).log.queued := by
    simp only [World.reading, World.view, hhalf]
  have hempty : r = w'.wptr f ↔ (w'.view f).log.queued = 0 := by
    rw [← hrptr]
    exact (hw'.view f).empty_iff
  refine h _ _ hinv ?_ ?_ (fun hne => ?_) ?_ hothers
  · rw [World.view_look]
    exact hrptr
  · rw [hqueued]
    exact hempty
  · rw [World.view_look]
    refine ⟨hp, hrptr, .inr (decide_eq_true hne), Nat.pos_of_ne_zero fun h0 => hne ?_⟩
    exact hempty.mpr h0
  · rw [World.view_look]
    refine ⟨(w'.view f).log.queued, le_refl _, ?_⟩
    rw [← hrptr, ← Log.queue_length]
    exact (hw'.view f).ring.write

end Rules

/-! ## Link -/

section Link

variable {b b' : β}

theorem transfer_runs (hc : c ≤ 253) (hcons : W.consumes p ⟨b, .tx⟩) (hprod : W.produces p ⟨b', .rx⟩)
    (w : World ι β) : Runs c W p (AllExact c shared) (UartLink.transfer c shared p b b') w := by
  have hne : (⟨b', .rx⟩ : Fifo β) ≠ ⟨b, .tx⟩ := fun h => by cases h
  refine Runs.read fun w1 hw1 r1 => ?_
  refine Runs.poll hcons rfl fun w2 txWptr hw2 _ hempty htaking _ _ => ?_
  split
  · rename_i heq
    refine Runs.ret (AllExact.cons (fun _ => Answer.exact_empty ?_) .nil)
    simpa using hempty.mp heq
  rename_i hnonempty
  have hsome : Answer.Exact c (⟨⟨b, .tx⟩, .empty, txWptr.queued, false⟩ : Answer β) :=
    Answer.exact_empty (by simpa using fun h => hnonempty (hempty.mpr h))
  refine Runs.read fun w3 hw3 r3 => ?_
  refine Runs.read fun w4 hw4 r4 => ?_
  -- the write pointer is the same at both reads when no other party moves it
  have hslot : shared ⟨b', .rx⟩ = false → (w3.view ⟨b', .rx⟩).wptr = (w4.reading b' 255).val := fun hs =>
    ((r4 _).producer ⟨hprod, .inl hs⟩).2.1.symm
  have hfull : shared ⟨b', .rx⟩ = false →
      ((w3.reading b' 254).val = opMod ((w4.reading b' 255).val + 1) (c + 1) ↔
        (w3.reading b' 254).queued = c) :=
    fun hs => (hw3.view _).full_iff_slot (hslot hs)
  dsimp only
  split
  · rename_i heq
    refine Runs.ret (AllExact.cons (fun _ => hsome)
      (AllExact.cons (fun hs => Answer.exact_full ?_) .nil))
    simpa using (hfull hs).mp heq
  rename_i hnotfull
  have hroom : Room c W p ⟨b', .rx⟩ (w3.view ⟨b', .rx⟩) (w4.reading b' 255).val :=
    Room.of_not_full (hw3.view _) hprod (hw4.view ⟨b', .rx⟩).ring.write_range hslot hnotfull
  refine Runs.read fun w5 hw5 r5 => ?_
  have htaken :=
    ((htaking hnonempty).stable (Rely.trans p _ _ _ r3 (Rely.trans p _ _ _ r4 r5) _)).taken hw5 hc
    (i := (w1.reading b 510).val + 256) (Int.add_comm _ _)
  refine Runs.writeRptr htaken (.inl rfl) rfl fun w6 _ _ _ _ h6 => ?_
  have hroom := ((hroom.stable (r4 _)).stable (r5 _)).stable (h6 _ hne)
  refine Runs.writeData hc hroom fun w7 _ _ hplaced _ => ?_
  refine Runs.writeWptr hplaced rfl fun w8 _ _ _ _ => ?_
  refine Runs.ret (AllExact.cons (fun _ => hsome) (AllExact.cons (fun hs => Answer.exact_full ?_) .nil))
  simpa using fun h => hnotfull ((hfull hs).mpr h)

theorem round_runs (hc : c ≤ 253) (h1 : W.consumes p ⟨b, .tx⟩ ∧ W.produces p ⟨b', .rx⟩)
    (h2 : W.consumes p ⟨b', .tx⟩ ∧ W.produces p ⟨b, .rx⟩) (hw : w.Inv c) :
    Runs c W p (AllExact c shared) (UartLink.round c shared p b b') w := by
  refine Runs.bind hw (transfer_runs hc h1.1 h1.2 w) fun as1 w1 hw1 has1 => ?_
  refine Runs.bind hw1 (transfer_runs hc h2.1 h2.2 w1) fun as2 w2 _ has2 => ?_
  exact Runs.ret (has1.append has2)

end Link

/-! ## Keyboard converter -/

theorem waitForUart_runs {b : β} (hc : c ≤ 253) (hprod : W.produces p ⟨b, .rx⟩) (letter : Int)
    (w : World ι β) :
    Runs c W p (AllExact c shared) (waitForUart c shared p b letter) w := by
  refine Runs.read fun w1 hw1 r1 => ?_
  have hrange := (hw1.view ⟨b, .rx⟩).ring.write_range
  have hmask : opAnd (w1.reading b 255).val 0xff = (w1.reading b 255).val := by
    have hpow : (2 : Int) ^ 8 - 1 = 0xff := by decide
    rw [← hpow, opAnd_low _ 8 (by decide)]
    exact Int.emod_eq_of_lt hrange.1 (lt_of_le_of_lt hrange.2 (by omega))
  dsimp only
  rw [hmask]
  refine Runs.read fun w2 hw2 r2 => ?_
  have hslot : shared ⟨b, .rx⟩ = false → (w2.view ⟨b, .rx⟩).wptr = (w1.reading b 255).val := fun hs =>
    ((r2 _).producer ⟨hprod, .inl hs⟩).2.1
  have hfull : shared ⟨b, .rx⟩ = false →
      ((w2.reading b 254).val = opMod ((w1.reading b 255).val + 1) (c + 1) ↔
        (w2.reading b 254).queued = c) :=
    fun hs => (hw2.view _).full_iff_slot (hslot hs)
  split
  · rename_i heq
    refine Runs.ret (AllExact.cons (fun hs => Answer.exact_full ?_) .nil)
    simpa using (hfull hs).mp heq
  rename_i hnotfull
  have hroom : Room c W p ⟨b, .rx⟩ (w2.view ⟨b, .rx⟩) (w1.reading b 255).val :=
    Room.of_not_full (hw2.view _) hprod hrange hslot hnotfull
  refine Runs.writeData hc hroom fun w3 _ _ hplaced _ => ?_
  refine Runs.writeWptr hplaced rfl fun w4 _ _ _ _ => ?_
  refine Runs.ret (AllExact.cons (fun hs => Answer.exact_full ?_) .nil)
  simpa using fun h => hnotfull ((hfull hs).mpr h)

/-! ## Displays -/

section Displays

variable {b : β}

/-- After a delivery the read pointer is the next one, and the rest of the queue is still there. -/
theorem view_released {r : Int} {got : Reading} (h : Taken W p f (w.view f) r got) (next : Int)
    (more : Bool) :
    ((w.release f next got.stamp got.val more).view f).rptr = next ∧
      ((w.release f next got.stamp got.val more).view f).log.queued + 1 = (w.view f).log.queued := by
  have hq := h.queued
  rw [World.view_release]
  refine ⟨rfl, ?_⟩
  simp only [View.release, Log.queued] at hq ⊢
  omega

theorem display_main_runs (hc : c ≤ 253) (hcons : W.consumes p ⟨b, .tx⟩) (n : Nat) :
    ∀ (rptr : Int) (w : World ι β), w.Inv c → (w.view ⟨b, .tx⟩).rptr = rptr →
      Runs c W p (AllExact c shared) (Display.main c b n rptr) w := by
  induction n with
  | zero => exact fun _ _ _ _ => Runs.ret .nil
  | succ n ih =>
      intro rptr w hw hr
      refine Runs.poll hcons hr fun w1 wptr hw1 hr1 hempty htaking _ _ => ?_
      split
      · rename_i heq
        refine Runs.bind hw1 (ih rptr w1 hw1 hr1) fun as w2 _ has => ?_
        exact Runs.ret (has.cons fun _ => Answer.exact_empty (by simpa using hempty.mp heq))
      rename_i hnonempty
      dsimp only
      refine Runs.read fun w2 hw2 r2 => ?_
      have htaken :=
        ((htaking hnonempty).stable (r2 _)).taken hw2 hc (i := rptr + 256) (Int.add_comm _ _)
      refine Runs.writeRptr htaken (.inl rfl) rfl fun w3 hw3 _ htaken' hw3' _ => ?_
      refine Runs.bind hw3' (ih _ _ hw3' (view_released htaken' _ _).1) fun as w4 _ has => ?_
      exact Runs.ret (has.cons fun _ =>
        Answer.exact_empty (by simpa using fun h => hnonempty (hempty.mpr h)))

theorem display_runs (hc : c ≤ 253) (hcons : W.consumes p ⟨b, .tx⟩) (rounds : Nat) (w : World ι β) :
    Runs c W p (AllExact c shared) (Display.reset c b rounds) w :=
  Runs.read fun w1 hw1 _ => display_main_runs hc hcons rounds _ w1 hw1 rfl

/-- What the inner loop of the scrolling display knows: some bytes are left before `rxWrite`. -/
structure Scrolling (c : Nat) (W : Wiring ι β shared) (p : ι) (f : Fifo β) (v : View ι)
    (r rxWrite : Int) :
    Prop extends Taking W p f v r where
  rest : ∃ n : Nat, 0 < n ∧ n ≤ v.log.queued ∧ rxWrite = (r + n) % (c + 1)

theorem scrolling_main_runs (hc : c ≤ 253) (hcons : W.consumes p ⟨b, .tx⟩) (n : Nat) :
    ∀ (rxRead : Int) (rxWrite : Option Int) (w : World ι β), w.Inv c → (w.view ⟨b, .tx⟩).rptr = rxRead →
      (∀ x, rxWrite = some x → Scrolling c W p ⟨b, .tx⟩ (w.view ⟨b, .tx⟩) rxRead x) →
      Runs c W p (AllExact c shared) (ScrollingDisplay.main c b n rxRead rxWrite) w := by
  induction n with
  | zero => exact fun _ _ _ _ _ _ => Runs.ret .nil
  | succ n ih =>
      intro rxRead rxWrite w hw hr hscroll
      cases rxWrite with
      | none =>
          refine Runs.poll hcons hr fun w1 wptr hw1 hr1 hempty htaking hspan _ => ?_
          dsimp only
          refine Runs.bind hw1 (ih rxRead _ w1 hw1 hr1 fun x hx => ?_) fun as w2 _ has => ?_
          · by_cases heq : rxRead = wptr.val
            · rw [if_pos (decide_eq_true heq)] at hx
              cases hx
            · rw [if_neg (by simpa using heq), Option.some_inj] at hx
              subst hx
              obtain ⟨k, hk, hval⟩ := hspan
              refine ⟨htaking heq, k, Nat.pos_of_ne_zero fun h0 => heq ?_, hk, hval⟩
              rw [hval, h0, Nat.cast_zero, Int.add_zero, wrap_self]
              rw [← hr1]
              exact (hw1.view _).ring.read
          · refine Runs.ret (has.cons fun _ => Answer.exact_empty ?_)
            rw [decide_eq_true_eq]
            exact hempty
      | some x =>
          have hscroll := hscroll x rfl
          dsimp only [ScrollingDisplay.main]
          refine Runs.read fun w1 hw1 r1 => ?_
          have htaken :=
            (hscroll.toTaking.stable (r1 _)).taken hw1 hc (i := rxRead + 256) (Int.add_comm _ _)
          refine Runs.writeRptr htaken (.inl rfl) rfl fun w2 hw2 r2 htaken' hw2' _ => ?_
          obtain ⟨hnext, hqueued⟩ := view_released htaken' (opMod (rxRead + 1) (c + 1))
            (decide (opMod (rxRead + 1) (c + 1) ≠ x))
          refine ih _ _ _ hw2' hnext fun y hy => ?_
          have hne : opMod (rxRead + 1) (c + 1) ≠ x := by
            intro heq
            rw [if_neg (not_not.mpr heq)] at hy
            cases hy
          rw [if_pos hne, Option.some_inj] at hy
          subst hy
          -- the bytes before `rxWrite` were there at the look and are one fewer now
          obtain ⟨k, hk0, hk, hval⟩ := hscroll.rest
          have hread := (hw.view ⟨b, .tx⟩).ring.read
          rw [hr] at hread
          rw [opMod_succ hread.1] at hne hnext hqueued ⊢
          have hk1 : k ≠ 1 := fun h1 => hne (by rw [hval, h1, Nat.cast_one])
          have hle : k ≤ (w2.view ⟨b, .tx⟩).log.queued := by
            have hr12 := (r1 ⟨b, .tx⟩).trans (r2 ⟨b, .tx⟩)
            have hlen := hr12.accepted.length_le
            have hremoved := (hr12.consumer hcons).2.2 hscroll.committed
            rw [Log.queued] at hk ⊢
            omega
          refine ⟨⟨hcons, hnext, .inr ?_, by omega⟩, k - 1, by omega, by omega, ?_⟩
          · rw [World.view_release]
            exact decide_eq_true hne
          · rw [hval, wrap_add, Int.add_assoc]
            congr 2
            omega

theorem scrolling_runs (hc : c ≤ 253) (hcons : W.consumes p ⟨b, .tx⟩) (rounds : Nat) (w : World ι β) :
    Runs c W p (AllExact c shared) (ScrollingDisplay.reset c b rounds) w :=
  Runs.read fun w1 hw1 _ => scrolling_main_runs hc hcons rounds _ none w1 hw1 rfl fun _ h => by cases h

end Displays

/-! ## The host -/

section Host

variable {b : β}

theorem toInt_of_range {v : Int} (h : 0 ≤ v ∧ v ≤ c) (hc : c ≤ 253) : UartAccess.toInt v = v := by
  rw [UartAccess.toInt, min_eq_left (by omega), max_eq_right (by omega)]

/-- Between two ticks the host finds the FIFO empty, or takes its first byte. -/
theorem read_cases (hc : c ≤ 253) (hw : w.Inv c) :
    ((w.log ⟨b, .tx⟩).queued = 0 ∧ UartAccess.read c b w = (none, w)) ∨
    (0 < (w.log ⟨b, .tx⟩).queued ∧ ∃ byte : UInt8,
      Decodes ((w.view ⟨b, .tx⟩).slot (w.rptr ⟨b, .tx⟩)).1 byte.toNat ∧
      UartAccess.read c b w = (some byte, w.release ⟨b, .tx⟩ (opMod (w.rptr ⟨b, .tx⟩ + 1) (c + 1))
        ((w.view ⟨b, .tx⟩).slot (w.rptr ⟨b, .tx⟩)).2 byte.toNat false)) := by
  have hinv := hw.view ⟨b, .tx⟩
  have hr : 0 ≤ w.rptr ⟨b, .tx⟩ ∧ w.rptr ⟨b, .tx⟩ ≤ c := hinv.ring.read
  have hrptr : UartAccess.toInt (w.banks b 510) = w.rptr ⟨b, .tx⟩ := toInt_of_range hr hc
  have hwptr : UartAccess.toInt (w.banks b 511) = w.wptr ⟨b, .tx⟩ :=
    toInt_of_range hinv.ring.write_range hc
  have hslot : (w.view ⟨b, .tx⟩).slot (w.rptr ⟨b, .tx⟩) =
      (w.banks b (256 + w.rptr ⟨b, .tx⟩), w.stamps b (256 + w.rptr ⟨b, .tx⟩)) := if_pos (by omega)
  rw [UartAccess.read, hrptr, hwptr]
  by_cases heq : w.rptr ⟨b, .tx⟩ = w.wptr ⟨b, .tx⟩
  · exact .inl ⟨hinv.empty_iff.mp heq, if_pos heq⟩
  · refine .inr ⟨Nat.pos_of_ne_zero fun h0 => heq (hinv.empty_iff.mpr h0),
      UartAccess.toUByte (UartAccess.toInt (w.banks b (256 + w.rptr ⟨b, .tx⟩))), ?_, ?_⟩
    · rw [hslot]
      exact .inr (.inr rfl)
    · dsimp only
      rw [if_neg heq, hslot, UartAccess.wrap, opMod_succ hr.1]

theorem read_change (hc : c ≤ 253) (hcons : W.consumes p ⟨b, .tx⟩) (hw : w.Inv c) :
    Change c W p ⟨b, .tx⟩ w (UartAccess.read c b w).2 := by
  rcases read_cases hc hw with ⟨-, heq⟩ | ⟨hq, byte, hdec, heq⟩
  · rw [heq]
    exact .refl hw
  · rw [heq]
    exact .release hw hcons hq hdec false

theorem readAll_change (hc : c ≤ 253) (hcons : W.consumes p ⟨b, .tx⟩) (n : Nat) :
    ∀ w : World ι β, w.Inv c → Change c W p ⟨b, .tx⟩ w (UartAccess.readAll c b n w).2 := by
  induction n with
  | zero => exact fun w hw => .refl hw
  | succ n ih =>
      intro w hw
      have hread := read_change hc hcons hw
      rw [UartAccess.readAll]
      rcases hcase : UartAccess.read c b w with ⟨_ | byte, w'⟩
      · rw [hcase] at hread
        exact hread
      · rw [hcase] at hread
        exact hread.trans (ih w' (hread.world hw))

/-- A read of all bytes ends after as many reads as bytes are queued, and leaves none. -/
theorem readAll_drains (hc : c ≤ 253) (hcons : W.consumes p ⟨b, .tx⟩) (n : Nat) :
    ∀ w : World ι β, w.Inv c → (w.log ⟨b, .tx⟩).queued ≤ n →
      ((UartAccess.readAll c b n w).2.log ⟨b, .tx⟩).queued = 0 ∧
        (UartAccess.readAll c b n w).1.length = (w.log ⟨b, .tx⟩).queued := by
  induction n with
  | zero =>
      intro w _ hq
      have h0 := Nat.le_zero.mp hq
      exact ⟨h0, h0.symm⟩
  | succ n ih =>
      intro w hw hq
      have hchange := read_change hc hcons hw
      rw [UartAccess.readAll]
      rcases read_cases hc hw with ⟨h0, heq⟩ | ⟨hpos, byte, -, heq⟩
      · rw [heq]
        exact ⟨h0, h0.symm⟩
      · rw [heq] at hchange ⊢
        have hless : ((w.release ⟨b, .tx⟩ (opMod (w.rptr ⟨b, .tx⟩ + 1) (c + 1))
            ((w.view ⟨b, .tx⟩).slot (w.rptr ⟨b, .tx⟩)).2 byte.toNat false).log ⟨b, .tx⟩).queued + 1 =
            (w.log ⟨b, .tx⟩).queued := by
          simp only [World.release, World.setLog_self, Log.queued] at hpos ⊢
          omega
        dsimp only at hchange ⊢
        obtain ⟨h1, h2⟩ := ih _ (hchange.world hw) (by omega)
        exact ⟨h1, by rw [List.length_cons, h2, hless]⟩

omit [DecidableEq β] in
theorem queued_le_capacity {f : Fifo β} (hw : w.Inv c) : (w.log f).queued ≤ c := by
  have hlen := (hw.view f).ring.length
  rw [Log.queue_length] at hlen
  exact hlen

theorem read_runs (hc : c ≤ 253) (hcons : W.consumes p ⟨b, .tx⟩) (w : World ι β) :
    Runs c W p (AllExact c shared) (UartAccess.readProg c b) w := by
  refine Runs.act ⟨b, .tx⟩ (fun w' hw' _ _ => read_change hc hcons hw') fun w' hw' _ _ _ _ => ?_
  refine Runs.ret (AllExact.cons (fun _ => Answer.exact_empty ?_) .nil)
  rcases read_cases (b := b) hc hw' with ⟨h0, heq⟩ | ⟨hpos, byte, -, heq⟩
  · rw [heq, h0]
    simp
  · rw [heq]
    simpa using hpos.ne'

theorem readAll_runs (hc : c ≤ 253) (hcons : W.consumes p ⟨b, .tx⟩) (w : World ι β) :
    Runs c W p (AllExact c shared) (UartAccess.readAllProg c b) w := by
  refine Runs.act ⟨b, .tx⟩ (fun w' hw' _ _ => readAll_change hc hcons _ w' hw') fun w' hw' _ _ _ _ => ?_
  refine Runs.ret (AllExact.cons (fun _ => Answer.exact_empty ?_) .nil)
  have hlen :=
    (readAll_drains hc hcons (c + 1) w' hw' ((queued_le_capacity hw').trans (Nat.le_succ c))).2
  rw [List.isEmpty_iff, ← List.length_eq_zero_iff, hlen]

/-- Between two ticks the host finds the FIFO full, or puts a byte behind its last one. -/
theorem write_cases (hc : c ≤ 253) (hw : w.Inv c) (byte : UInt8) :
    ((w.log ⟨b, .rx⟩).queued = c ∧ UartAccess.write c p b byte w = (false, w)) ∨
    ((w.log ⟨b, .rx⟩).queued < c ∧ UartAccess.write c p b byte w =
      (true, (w.putData p ⟨b, .rx⟩ (w.wptr ⟨b, .rx⟩) byte.toNat).publish ⟨b, .rx⟩
        (opMod (w.wptr ⟨b, .rx⟩ + 1) (c + 1)) byte.toNat)) := by
  have hinv := hw.view ⟨b, .rx⟩
  have hrange : 0 ≤ w.wptr ⟨b, .rx⟩ ∧ w.wptr ⟨b, .rx⟩ ≤ c := hinv.ring.write_range
  have hrptr : UartAccess.toInt (w.banks b 254) = w.rptr ⟨b, .rx⟩ := toInt_of_range hinv.ring.read hc
  have hwptr : opAnd (UartAccess.toInt (w.banks b 255)) 0xff = w.wptr ⟨b, .rx⟩ := by
    have hpow : (2 : Int) ^ 8 - 1 = 0xff := by decide
    rw [show UartAccess.toInt (w.banks b 255) = w.wptr ⟨b, .rx⟩ from toInt_of_range hrange hc, ← hpow,
      opAnd_low _ 8 (by decide)]
    exact Int.emod_eq_of_lt hrange.1 (lt_of_le_of_lt hrange.2 (by omega))
  have hfull : w.rptr ⟨b, .rx⟩ = opMod (w.wptr ⟨b, .rx⟩ + 1) (c + 1) ↔ (w.log ⟨b, .rx⟩).queued = c :=
    hinv.full_iff_slot rfl
  rw [UartAccess.write, hrptr, hwptr, UartAccess.wrap, ← opMod_succ hrange.1]
  by_cases heq : opMod (w.wptr ⟨b, .rx⟩ + 1) (c + 1) = w.rptr ⟨b, .rx⟩
  · exact .inl ⟨hfull.mp heq.symm, if_pos heq⟩
  · exact .inr ⟨lt_of_le_of_ne (queued_le_capacity hw) fun h => heq (hfull.mpr h).symm, if_neg heq⟩

theorem write_runs (hc : c ≤ 253) (hprod : W.produces p ⟨b, .rx⟩) (byte : UInt8) (w : World ι β) :
    Runs c W p (AllExact c shared) (UartAccess.writeProg c shared p b byte) w := by
  refine Runs.act ⟨b, .rx⟩ (fun w' hw' _ hok => ?_) fun w' hw' _ _ _ _ => ?_
  · rcases write_cases (p := p) (b := b) hc hw' byte with ⟨-, heq⟩ | ⟨hlt, heq⟩
    · rw [heq]
      exact .refl hw'
    · have hfree : shared ⟨b, .rx⟩ = false ∨ (w'.log ⟨b, .rx⟩).writing = none := by
        simpa [heq] using hok
      have hput := Change.putData hw' hc hprod hfree byte.toNat
      have hplaced := Change.placed_putData hw' hc hprod hlt byte.toNat
      rw [heq]
      refine hput.trans ?_
      have hslot : (w'.putData p ⟨b, .rx⟩ (w'.wptr ⟨b, .rx⟩) byte.toNat).wptr ⟨b, .rx⟩ =
          w'.wptr ⟨b, .rx⟩ :=
        hplaced.wptr
      generalize w'.putData p ⟨b, .rx⟩ (w'.wptr ⟨b, .rx⟩) byte.toNat = w'' at hput hplaced hslot ⊢
      rw [← hslot] at hplaced ⊢
      exact .publish (hput.world hw') hplaced
  · refine Runs.ret (AllExact.cons (fun _ => Answer.exact_full ?_) .nil)
    rcases write_cases (p := p) (b := b) hc hw' byte with ⟨h, heq⟩ | ⟨h, heq⟩
    · simp [heq, h]
    · simp [heq, h.ne]

end Host

end Mlogv32.Uart
