import Mlogv32.Rust.Io

/-!
# The calls of the port

Each call keeps the bytes in order, while bytes may arrive, as long as no action does harm.
-/

namespace Mlogv32.Rust
open Logic

/-- The bytes are where they belong, in the order of their arrival. -/
structure Port.Inv (s : Port) : Prop where
  stream : s.received = s.delivered ++ (s.ring ++ (s.held ++ s.rx))
  exposed : s.exposed <+: s.ring

/-- The line only adds bytes to the FIFO. -/
structure RelyPort (s s' : Port) : Prop where
  ring : s'.ring = s.ring
  held : s'.held = s.held
  exposed : s'.exposed = s.exposed
  delivered : s'.delivered = s.delivered
  rx : s.rx <+: s'.rx

def Rely : Party → Port → Port → Prop
  | .port, s, s' => RelyPort s s'
  | .line, _, _ => True

/-- What a call has made true when it ends. -/
def Ended : Party → Outcome → Port → Prop
  | .port, o, s => s.held = [] ∧ ∀ said available, o = .ready said available → said = available
  | .line, _, _ => True

theorem RelyPort.refl (s : Port) : RelyPort s s := ⟨rfl, rfl, rfl, rfl, List.prefix_refl _⟩

theorem RelyPort.trans {s t u : Port} (h : RelyPort s t) (h' : RelyPort t u) : RelyPort s u where
  ring := h'.ring.trans h.ring
  held := h'.held.trans h.held
  exposed := h'.exposed.trans h.exposed
  delivered := h'.delivered.trans h.delivered
  rx := h.rx.trans h'.rx

theorem Rely.refl (p : Party) (s : Port) : Rely p s s := by
  cases p with
  | port => exact RelyPort.refl s
  | line => trivial

theorem Rely.trans (p : Party) (s t u : Port) (h : Rely p s t) (h' : Rely p t u) : Rely p s u := by
  cases p with
  | port => exact RelyPort.trans h h'
  | line => trivial

/-! ## Rules -/

/-- The port runs a program. -/
abbrev Runs {α : Type} (Q : α → Port → Prop) (p : Io α) (s : Port) : Prop :=
  p.Safe Port.Inv Rely .port Q s

variable {α β : Type} {Q : α → Port → Prop} {s : Port}

theorem Runs.ret {a : α} (h : ∀ s', s'.Inv → RelyPort s s' → Q a s') : Runs Q (.ret a) s := h

theorem Runs.act {ok : Port → Bool} {next : Port → Port} {k : Port → Io α}
    (h : ∀ s', s'.Inv → RelyPort s s' → ok s' = true → (next s').Inv ∧ Runs Q (k s') (next s')) :
    Runs Q (.act ok next k) s := by
  intro s' hinv hrely hok
  obtain ⟨hnext, hk⟩ := h s' hinv hrely hok
  refine ⟨⟨hnext, fun j hj => ?_⟩, hk⟩
  cases j with
  | port => exact absurd rfl hj
  | line => trivial

theorem Runs.bind {p : Io α} {f : α → Io β} {R : β → Port → Prop} (hinv : s.Inv) (hp : Runs Q p s)
    (hf : ∀ a s', s'.Inv → Q a s' → Runs R (f a) s') : Runs R (p >>= f) s :=
  Prog.Safe.bind (Rely.refl .port) hinv hp hf

theorem Runs.look {result : Port → α}
    (h : ∀ s', s'.Inv → RelyPort s s' → ∀ s'', RelyPort s' s'' → Q (result s') s'') :
    Runs Q (.atomic free id result) s :=
  Runs.act fun s' hinv hrely _ => ⟨hinv, Runs.ret fun s'' _ hrely' => h s' hinv hrely s'' hrely'⟩

/-! ## Reads -/

/-- The bytes that a call has taken. They were in front of all others if it will hand them to the
caller. -/
def Taken (direct : Bool) (bytes : List UInt8) (s : Port) : Prop :=
  s.held = bytes ∧ (direct = true → bytes ≠ [] → s.ring = [])

theorem Taken.rely {direct : Bool} {bytes : List UInt8} {s s' : Port} (h : Taken direct bytes s)
    (hs : RelyPort s s') :
    Taken direct bytes s' :=
  ⟨hs.held.trans h.1, fun hdirect hne => hs.ring.trans (h.2 hdirect hne)⟩

theorem Taken.nil (direct : Bool) (h : s.held = []) :
    Taken direct [] s := ⟨h, fun _ hne => absurd rfl hne⟩

theorem readByte_runs {direct : Bool} {bytes : List UInt8} (h : Taken direct bytes s) :
    Runs (fun o s' => Taken direct (bytes ++ o.toList) s') (readByte direct) s := by
  rw [readByte, hasData, rxNotEmpty, Prog.atomic_bind]
  refine Runs.act fun s₁ hinv₁ hrely₁ _ => ⟨hinv₁, ?_⟩
  have h₁ := h.rely hrely₁
  cases hrx : s₁.rx with
  | nil => exact Runs.ret fun s₂ _ hrely₂ => by simpa using h₁.rely hrely₂
  | cons byte rest =>
      refine Runs.act fun s₂ hinv₂ hrely₂ hok => ?_
      have h₂ := h₁.rely hrely₂
      -- the byte is still the first one
      have hfirst : ∃ rest', s₂.rx = byte :: rest' := by
        obtain ⟨more, hmore⟩ := hrely₂.rx
        exact ⟨rest ++ more, by rw [← hmore, id_eq, hrx]; rfl⟩
      obtain ⟨rest', hrx₂⟩ := hfirst
      refine ⟨⟨?_, hinv₂.exposed⟩, Runs.ret fun s₃ _ hrely₃ =>
        Taken.rely ⟨?_, fun hdirect _ => ?_⟩ hrely₃⟩
      · rw [hinv₂.stream, hrx₂]
        simp
      · change s₂.held ++ s₂.rx.take 1 = bytes ++ [s₂.rx.headD 0]
        rw [h₂.1, hrx₂]
        rfl
      · change s₂.ring = []
        simpa [hdirect] using hok

theorem readBytes_runs {direct : Bool} {n : Nat} {taken : List UInt8} (hinv : s.Inv)
    (h : Taken direct taken s) :
    Runs (fun bytes s' => Taken direct (taken ++ bytes) s') (readBytes direct n) s := by
  induction n generalizing s taken with
  | zero => exact Runs.ret fun s' _ hrely => by simpa using h.rely hrely
  | succ n ih =>
      refine Runs.bind hinv (readByte_runs h) fun o s₁ hinv₁ h₁ => ?_
      cases o with
      | none => exact Runs.ret fun s₂ _ hrely₂ => h₁.rely hrely₂
      | some byte =>
          refine Runs.bind hinv₁ (ih hinv₁ h₁) fun bytes s₂ _ h₂ => Runs.ret fun s₃ _ hrely₃ => ?_
          have h₃ := h₂.rely hrely₃
          rw [List.append_assoc] at h₃
          exact h₃

theorem waitForData_runs {rounds : Nat} {direct : Bool} {taken : List UInt8} (h : Taken direct taken s) :
    Runs (fun _ s' => Taken direct taken s') (waitForData rounds) s := by
  induction rounds generalizing s with
  | zero => exact Runs.ret fun s' _ hrely => h.rely hrely
  | succ rounds ih =>
      rw [waitForData, hasData, rxNotEmpty, Prog.atomic_bind]
      refine Runs.act fun s₁ hinv₁ hrely₁ _ => ⟨hinv₁, ?_⟩
      have h₁ := h.rely hrely₁
      cases !s₁.rx.isEmpty with
      | true => exact Runs.ret fun s₂ _ hrely₂ => h₁.rely hrely₂
      | false => exact ih h₁

/-- What a read has taken when it gives an outcome. -/
def ReadEnded (direct : Bool) : Outcome → Port → Prop
  | .bytes bytes, s => Taken direct bytes s
  | .ready .., _ => False
  | _, s => s.held = []

theorem uartRead_runs {direct : Bool} {rounds length : Nat} (hinv : s.Inv) (h : s.held = []) :
    Runs (ReadEnded direct) (uartRead direct rounds length) s := by
  have h : Taken direct [] s := Taken.nil direct h
  unfold uartRead
  by_cases hlength : length = 0
  · rw [if_pos hlength]
    exact Runs.ret fun s' _ hrely => h.rely hrely
  · rw [if_neg hlength]
    refine Runs.bind hinv (waitForData_runs h) fun waited s₁ hinv₁ h₁ => ?_
    cases waited with
    | false => exact Runs.ret fun s₂ _ hrely₂ => (h₁.rely hrely₂).1
    | true =>
        have hlook : Runs (fun _ s' => Taken direct [] s') overrunError s₁ :=
          Runs.look fun s₂ _ hrely₂ s₃ hrely₃ => (h₁.rely hrely₂).rely hrely₃
        refine Runs.bind hinv₁ hlook fun overrun s₂ hinv₂ h₂ => ?_
        cases overrun with
        | true => exact Runs.ret fun s₃ _ hrely₃ => (h₂.rely hrely₃).1
        | false =>
            refine Runs.bind hinv₂ (readBytes_runs hinv₂ h₂) fun bytes s₃ _ h₃ =>
              Runs.ret fun s₄ _ hrely₄ => ?_
            exact h₃.rely hrely₄

/-! ## Calls -/

theorem popBuf_runs {part : Nat} (h : s.held = []) : Runs (Ended .port) (popBuf part) s :=
  Runs.act fun s₁ hinv₁ hrely₁ _ =>
    ⟨⟨hinv₁.stream, List.take_prefix part s₁.ring⟩, Runs.ret fun s₂ _ hrely₂ =>
      ⟨hrely₂.held.trans (hrely₁.held.trans h), fun _ _ ho => by cases ho⟩⟩

theorem fillBuf_runs {rounds room part : Nat} (h : s.held = []) :
    Runs (Ended .port) (fillBuf rounds room part) s := by
  rw [fillBuf, Prog.atomic_bind]
  refine Runs.act fun s₁ hinv₁ hrely₁ _ => ⟨hinv₁, ?_⟩
  have h₁ : s₁.held = [] := hrely₁.held.trans h
  cases s₁.ring.isEmpty with
  | false => exact popBuf_runs h₁
  | true =>
      refine Runs.bind hinv₁ (waitForData_runs (Taken.nil false h₁)) fun waited s₂ hinv₂ h₂ => ?_
      cases waited with
      | false => exact Runs.ret fun s₃ _ hrely₃ => ⟨(h₂.rely hrely₃).1, fun _ _ ho => by cases ho⟩
      | true =>
          refine Runs.bind hinv₂ (uartRead_runs hinv₂ h₂.1) fun o s₃ hinv₃ h₃ => ?_
          cases o with
          | pending => exact Runs.ret fun s₄ _ hrely₄ =>
              ⟨hrely₄.held.trans h₃, fun _ _ ho => by cases ho⟩
          | done => exact Runs.ret fun s₄ _ hrely₄ => ⟨hrely₄.held.trans h₃, fun _ _ ho => by cases ho⟩
          | err e => exact Runs.ret fun s₄ _ hrely₄ => ⟨hrely₄.held.trans h₃, fun _ _ ho => by cases ho⟩
          | ready said available => exact h₃.elim
          | bytes bytes =>
              refine Runs.act fun s₄ hinv₄ hrely₄ _ => ?_
              have hheld : s₄.held = bytes := (h₃.rely hrely₄).1
              refine ⟨⟨?_, hinv₄.exposed.trans (List.prefix_append ..)⟩, popBuf_runs rfl⟩
              rw [hinv₄.stream, hheld]
              simp

theorem consume_runs {amt : Nat} (h : s.held = []) (hamt : amt ≤ s.exposed.length) :
    Runs (Ended .port) (consume amt) s := by
  refine Runs.act fun s₁ hinv₁ hrely₁ _ => ⟨?_, Runs.ret fun s₂ _ hrely₂ =>
    ⟨hrely₂.held.trans (hrely₁.held.trans h), fun _ _ ho => by cases ho⟩⟩
  -- the exposed bytes are the first ones of the ring
  obtain ⟨rest, hrest⟩ := hinv₁.exposed
  have hlen : amt ≤ s₁.exposed.length := hrely₁.exposed ▸ hamt
  have hdrop : s₁.ring.drop amt = s₁.exposed.drop amt ++ rest := by
    rw [← hrest, List.drop_append_of_le_length hlen]
  refine ⟨?_, ⟨rest, hdrop.symm⟩⟩
  change s₁.received = s₁.delivered ++ s₁.exposed.take amt ++ (s₁.ring.drop amt ++ (s₁.held ++ s₁.rx))
  rw [hinv₁.stream, hdrop, ← hrest, List.append_assoc s₁.delivered,
    ← List.append_assoc (s₁.exposed.take amt),
    ← List.append_assoc (s₁.exposed.take amt), List.take_append_drop]

theorem read_runs {rounds length : Nat} (hinv : s.Inv) (h : s.held = []) :
    Runs (Ended .port) (read rounds length) s := by
  refine Runs.bind hinv (uartRead_runs hinv h) fun o s₁ hinv₁ h₁ => ?_
  cases o with
  | pending => exact Runs.ret fun s₂ _ hrely₂ => ⟨hrely₂.held.trans h₁, fun _ _ ho => by cases ho⟩
  | done => exact Runs.ret fun s₂ _ hrely₂ => ⟨hrely₂.held.trans h₁, fun _ _ ho => by cases ho⟩
  | err e => exact Runs.ret fun s₂ _ hrely₂ => ⟨hrely₂.held.trans h₁, fun _ _ ho => by cases ho⟩
  | ready said available => exact h₁.elim
  | bytes bytes =>
      refine Runs.act fun s₂ hinv₂ hrely₂ _ => ?_
      obtain ⟨hheld, hring⟩ := h₁.rely hrely₂
      refine ⟨⟨?_, hinv₂.exposed⟩, Runs.ret fun s₃ _ hrely₃ => ⟨hrely₃.held, fun _ _ ho => by cases ho⟩⟩
      rw [hinv₂.stream, hheld]
      by_cases hbytes : bytes = []
      · simp [hbytes]
      · simp [hring rfl hbytes]

/-- No byte is only in the ring when `read_ready` looks. -/
theorem readReady_runs (h : s.held = []) : Runs (Ended .port) readReady s := by
  refine Runs.act fun s₁ hinv₁ hrely₁ hok => ⟨hinv₁, Runs.ret fun s₂ _ hrely₂ =>
    ⟨hrely₂.held.trans (hrely₁.held.trans h), fun said available ho => ?_⟩⟩
  obtain ⟨rfl, rfl⟩ := Outcome.ready.inj ho
  rw [Port.available]
  cases hring : s₁.ring.isEmpty with
  | true => rfl
  | false => simpa [hring] using hok

/-! ## The system -/

theorem line_safe (event : Line) : (line event).Safe Port.Inv Rely .line (Ended .line) s := by
  cases event with
  | receive byte =>
      intro s₁ hinv₁ _ _
      refine ⟨⟨⟨?_, hinv₁.exposed⟩, fun j hj => ?_⟩, fun _ _ _ => trivial⟩
      · change s₁.received ++ [byte] = _
        rw [hinv₁.stream]
        simp
      · cases j with
        | port => exact ⟨rfl, rfl, rfl, rfl, List.prefix_append ..⟩
        | line => exact absurd rfl hj
  | overrun flag =>
      intro s₁ hinv₁ _ _
      refine ⟨⟨⟨hinv₁.stream, hinv₁.exposed⟩, fun j hj => ?_⟩, fun _ _ _ => trivial⟩
      cases j with
      | port => exact ⟨rfl, rfl, rfl, rfl, List.prefix_refl _⟩
      | line => exact absurd rfl hj

theorem body_safe (p : Party) (call : Call) (o : Outcome) (s : Port) (hinv : s.Inv)
    (hended : Ended p o s) (hmay : May p call s) :
    (body p call).Safe Port.Inv Rely p (Ended p) s := by
  cases p with
  | line =>
      cases call with
      | line event => exact line_safe event
      | fillBuf | consume | read | readReady => exact hmay.elim
  | port =>
      cases call with
      | fillBuf rounds room part => exact fillBuf_runs hended.1
      | consume amt => exact consume_runs hended.1 hmay
      | read rounds length => exact read_runs hinv hended.1
      | readReady => exact readReady_runs hended.1
      | line event => exact hmay.elim

theorem coherent {t : Threads Party Port Outcome}
    (h : Reachable (· = newPort) (Threads.Careful May) (Threads.apply body) t) :
    Threads.Coherent Port.Inv Rely Ended t := by
  refine Threads.Coherent.reachable Rely.trans Rely.refl (fun t ht => ?_) body_safe h
  subst ht
  refine ⟨⟨rfl, List.prefix_refl _⟩, fun p => ?_⟩
  cases p with
  | port => exact fun s' _ hrely => ⟨hrely.held, fun _ _ ho => by cases ho⟩
  | line => exact fun _ _ _ => trivial

end Mlogv32.Rust
