import Mlogv32.Logic.Reachable

/-!
# Programs that share a state

A program is a tree of atomic actions on a shared state. Threads run their programs one action at
a time, in any order. `Safe` says that a program keeps an invariant while the other threads keep
what the program relies on, and what holds when it ends. Each program is shown safe alone; that
every interleaving of safe programs keeps the invariant is shown here.
-/

namespace Mlogv32.Logic

/-- An action may do harm where its condition `ok` fails; `k` goes on with the state before it. -/
inductive Prog (σ α : Type) where
  | ret (a : α)
  | act (ok : σ → Bool) (next : σ → σ) (k : σ → Prog σ α)

namespace Prog

variable {σ α β : Type}

def bind : Prog σ α → (α → Prog σ β) → Prog σ β
  | ret a, f => f a
  | act ok next k, f => act ok next fun s => (k s).bind f

instance : Monad (Prog σ) where
  pure := ret
  bind := bind

/-- One action that takes a result from the state. -/
def atomic (ok : σ → Bool) (next : σ → σ) (result : σ → α) : Prog σ α :=
  act ok next fun s => ret (result s)

/-- The program run to its end with no other thread. -/
def alone : Prog σ α → σ → α × σ
  | ret a, s => (a, s)
  | act _ next k, s => (k s).alone (next s)

@[simp] theorem pure_eq (a : α) : (pure a : Prog σ α) = ret a := rfl

@[simp] theorem ret_bind (a : α) (f : α → Prog σ β) : (ret a : Prog σ α) >>= f = f a := rfl

@[simp] theorem atomic_bind (ok : σ → Bool) (next : σ → σ) (result : σ → α) (f : α → Prog σ β) :
    atomic ok next result >>= f = act ok next fun s => f (result s) := rfl

@[simp] theorem act_bind (ok : σ → Bool) (next : σ → σ) (k : σ → Prog σ α) (f : α → Prog σ β) :
    act ok next k >>= f = act ok next fun s => k s >>= f := rfl

@[simp] theorem alone_ret (a : α) (s : σ) : (ret a : Prog σ α).alone s = (a, s) := rfl

@[simp] theorem alone_act (ok : σ → Bool) (next : σ → σ) (k : σ → Prog σ α) (s : σ) :
    (act ok next k).alone s = (k s).alone (next s) := rfl

/-- The condition of the next action. -/
def Clear : Prog σ α → σ → Prop
  | ret _, _ => True
  | act ok _ _, s => ok s = true

instance (p : Prog σ α) (s : σ) : Decidable (p.Clear s) :=
  match p with
  | ret _ => isTrue trivial
  | act ok _ _ => inferInstanceAs (Decidable (ok s = true))

/-! ## A property of every action -/

/-- `P` holds of every action of the program. -/
def All (P : (σ → Bool) → (σ → σ) → Prop) : Prog σ α → Prop
  | ret _ => True
  | act ok next k => P ok next ∧ ∀ s, (k s).All P

theorem All.bind {P : (σ → Bool) → (σ → σ) → Prop} {p : Prog σ α} {f : α → Prog σ β} (hp : p.All P)
    (hf : ∀ a, (f a).All P) : (p >>= f).All P := by
  induction p with
  | ret a => exact hf a
  | act ok next k ih => exact ⟨hp.1, fun s => ih s (hp.2 s)⟩

/-! ## Safe programs -/

section Safe

variable {ι : Type} (inv : σ → Prop) (rely : ι → σ → σ → Prop)

/-- Thread `i` runs the program from a state on. The other threads act as `rely i` says. -/
def Safe (i : ι) (Q : α → σ → Prop) : Prog σ α → σ → Prop
  | ret a, s => ∀ s', inv s' → rely i s s' → Q a s'
  | act ok next k, s => ∀ s', inv s' → rely i s s' → ok s' = true →
      (inv (next s') ∧ ∀ j, j ≠ i → rely j s' (next s')) ∧ (k s').Safe i Q (next s')

variable {inv rely} {i : ι}

theorem Safe.stable (htrans : ∀ s t u, rely i s t → rely i t u → rely i s u) {Q : α → σ → Prop}
    {p : Prog σ α} {s t : σ} (h : p.Safe inv rely i Q s) (hst : rely i s t) : p.Safe inv rely i Q t := by
  cases p with
  | ret a => exact fun s' hi hr => h s' hi (htrans _ _ _ hst hr)
  | act ok next k => exact fun s' hi hr => h s' hi (htrans _ _ _ hst hr)

theorem Safe.mono {Q Q' : α → σ → Prop} {p : Prog σ α} {s : σ} (h : p.Safe inv rely i Q s)
    (hQ : ∀ a s, inv s → Q a s → Q' a s) : p.Safe inv rely i Q' s := by
  induction p generalizing s with
  | ret a => exact fun s' hi hr => hQ a s' hi (h s' hi hr)
  | act ok next k ih =>
      intro s' hi hr hok
      have := h s' hi hr hok
      exact ⟨this.1, ih s' this.2⟩

theorem Safe.bind {Q : α → σ → Prop} {R : β → σ → Prop} {p : Prog σ α} {f : α → Prog σ β} {s : σ}
    (hrefl : ∀ s, rely i s s) (hinv : inv s)
    (hp : p.Safe inv rely i Q s) (hf : ∀ a s, inv s → Q a s → (f a).Safe inv rely i R s) :
    (p >>= f).Safe inv rely i R s := by
  induction p generalizing s with
  | ret a => exact hf a s hinv (hp s hinv (hrefl s))
  | act ok next k ih =>
      intro s' hi hr hok
      have h := hp s' hi hr hok
      exact ⟨h.1, ih s' h.1.1 h.2⟩

end Safe

end Prog

/-! ## Threads -/

/-- A shared state, and what is left of the program of each thread. -/
structure Threads (ι σ α : Type) where
  state : σ
  prog : ι → Prog σ α

/-- A thread takes its next action, or starts a new operation when its program has ended. -/
inductive Event (ι Op : Type) where
  | step (i : ι)
  | start (i : ι) (op : Op)

namespace Threads

variable {ι σ α Op : Type} [DecidableEq ι]

def apply (body : ι → Op → Prog σ α) (t : Threads ι σ α) : Event ι Op → Threads ι σ α
  | .step i =>
      match t.prog i with
      | .ret _ => t
      | .act _ next k => { state := next t.state, prog := Function.update t.prog i (k t.state) }
  | .start i op =>
      match t.prog i with
      | .ret _ => { t with prog := Function.update t.prog i (body i op) }
      | .act .. => t

/-- Operations start where `may` allows it, and actions are taken in any order. -/
def Any (may : ι → Op → σ → Prop) (t : Threads ι σ α) : Event ι Op → Prop
  | .step _ => True
  | .start i op => may i op t.state

/-- As `Any`, but no action is taken where its condition fails. -/
def Careful (may : ι → Op → σ → Prop) (t : Threads ι σ α) : Event ι Op → Prop
  | .step i => (t.prog i).Clear t.state
  | .start i op => may i op t.state

instance (may : ι → Op → σ → Prop) [∀ i op s, Decidable (may i op s)] (t : Threads ι σ α)
    (e : Event ι Op) :
    Decidable (Any may t e) :=
  match e with
  | .step _ => isTrue trivial
  | .start i op => inferInstanceAs (Decidable (may i op t.state))

instance (may : ι → Op → σ → Prop) [∀ i op s, Decidable (may i op s)] (t : Threads ι σ α)
    (e : Event ι Op) :
    Decidable (Careful may t e) :=
  match e with
  | .step i => inferInstanceAs (Decidable ((t.prog i).Clear t.state))
  | .start i op => inferInstanceAs (Decidable (may i op t.state))

omit [DecidableEq ι] in
theorem Careful.any {may : ι → Op → σ → Prop} {t : Threads ι σ α} {e : Event ι Op}
    (h : Careful may t e) :
    Any may t e := by
  cases e with
  | step i => trivial
  | start i op => exact h

/-! ## Interleavings of safe programs -/

/-- The invariant holds, and every thread is in the middle of a safe program. -/
structure Coherent (inv : σ → Prop) (rely : ι → σ → σ → Prop) (Q : ι → α → σ → Prop)
    (t : Threads ι σ α) : Prop where
  holds : inv t.state
  safe : ∀ i, (t.prog i).Safe inv rely i (Q i) t.state

section Coherent

variable {inv : σ → Prop} {rely : ι → σ → σ → Prop} {Q : ι → α → σ → Prop} {body : ι → Op → Prog σ α}
  {may : ι → Op → σ → Prop} {t : Threads ι σ α}

/-- The action of one thread is one of the changes that the others rely on. -/
theorem Coherent.step (htrans : ∀ i s t u, rely i s t → rely i t u → rely i s u)
    (hrefl : ∀ i s, rely i s s) (h : Coherent inv rely Q t) {i : ι}
    (hok : (t.prog i).Clear t.state) :
    Coherent inv rely Q (t.apply body (.step i)) := by
  have hi := h.safe i
  rw [apply]
  cases hp : t.prog i with
  | ret a => exact h
  | act ok next k =>
      rw [hp] at hi hok
      obtain ⟨⟨hinv, hothers⟩, hk⟩ := hi t.state h.holds (hrefl i _) hok
      refine ⟨hinv, fun j => ?_⟩
      by_cases hj : j = i
      · subst hj
        simpa using hk
      · simpa [Function.update_of_ne hj] using (h.safe j).stable (htrans j) (hothers j hj)

/-- A new operation may rely on what the last one has made true. -/
theorem Coherent.start (hrefl : ∀ i s, rely i s s)
    (hbody : ∀ i op a s, inv s → Q i a s → may i op s → (body i op).Safe inv rely i (Q i) s)
    (h : Coherent inv rely Q t) {i : ι} {op : Op} (hmay : may i op t.state) :
    Coherent inv rely Q (t.apply body (.start i op)) := by
  rw [apply]
  cases hp : t.prog i with
  | act ok next k => exact h
  | ret a =>
      have hlast := h.safe i
      rw [hp] at hlast
      refine ⟨h.holds, fun j => ?_⟩
      by_cases hj : j = i
      · subst hj
        simpa using hbody j op a t.state h.holds (hlast t.state h.holds (hrefl j _)) hmay
      · simpa [Function.update_of_ne hj] using h.safe j

/-- Safe programs keep the invariant in every careful interleaving. -/
theorem Coherent.reachable {init : Threads ι σ α → Prop}
    (htrans : ∀ i s t u, rely i s t → rely i t u → rely i s u) (hrefl : ∀ i s, rely i s s)
    (hinit : ∀ t, init t → Coherent inv rely Q t)
    (hbody : ∀ i op a s, inv s → Q i a s → may i op s → (body i op).Safe inv rely i (Q i) s)
    (h : Reachable init (Careful may) (apply body) t) : Coherent inv rely Q t := by
  refine h.invariant hinit fun t e ht hg => ?_
  cases e with
  | step i => exact ht.step htrans hrefl hg
  | start i op => exact ht.start hrefl hbody hg

omit [DecidableEq ι] in
/-- What a program has made true when it ends. -/
theorem Coherent.done (hrefl : ∀ i s, rely i s s) (h : Coherent inv rely Q t) {i : ι} {a : α}
    (hi : t.prog i = .ret a) : Q i a t.state := by
  have hs := h.safe i
  rw [hi] at hs
  exact hs t.state h.holds (hrefl i _)

end Coherent

/-! ## Properties of every action -/

section All

variable {P : (σ → Bool) → (σ → σ) → Prop} {body : ι → Op → Prog σ α} {may : ι → Op → σ → Prop}
  {t : Threads ι σ α} {init : Threads ι σ α → Prop}

theorem all_apply (hbody : ∀ i op s, may i op s → (body i op).All P) (h : ∀ i, (t.prog i).All P)
    {e : Event ι Op} (hg : Any may t e) (i : ι) : ((t.apply body e).prog i).All P := by
  cases e with
  | step j =>
      rw [apply]
      cases hp : t.prog j with
      | ret a => exact h i
      | act ok next k =>
          have hj := h j
          rw [hp] at hj
          by_cases hij : i = j
          · subst hij
            simpa using hj.2 t.state
          · simpa [Function.update_of_ne hij] using h i
  | start j op =>
      rw [apply]
      cases hp : t.prog j with
      | act ok next k => exact h i
      | ret a =>
          by_cases hij : i = j
          · subst hij
            simpa using hbody i op t.state hg
          · simpa [Function.update_of_ne hij] using h i

/-- In every run each thread is inside a program whose actions have the property. -/
theorem reachable_all (hbody : ∀ i op s, may i op s → (body i op).All P)
    (hinit : ∀ t, init t → ∀ i, (t.prog i).All P) (h : Reachable init (Any may) (apply body) t) (i : ι) :
    (t.prog i).All P :=
  h.invariant (I := fun t => ∀ i, (t.prog i).All P) hinit (fun _ _ hall hg => all_apply hbody hall hg) i

/-- Actions that all keep a part of the state keep it in every run. -/
theorem reachable_keeps {γ : Type} {f : σ → γ} (hP : ∀ ok next, P ok next → ∀ s, f (next s) = f s)
    (hbody : ∀ i op s, may i op s → (body i op).All P) (hinit : ∀ t, init t → ∀ i, (t.prog i).All P)
    {c : γ} (hc : ∀ t, init t → f t.state = c) (h : Reachable init (Any may) (apply body) t) :
    f t.state = c := by
  induction h with
  | init h => exact hc _ h
  | @next t e hr hg ih =>
      cases e with
      | start i op =>
          rw [apply]
          cases t.prog i <;> exact ih
      | step i =>
          have hi := reachable_all hbody hinit hr i
          rw [apply]
          cases hp : t.prog i with
          | ret a => exact ih
          | act ok next k =>
              rw [hp] at hi
              exact (hP ok next hi.1 t.state).trans ih

/-- Where no action does harm, every run is careful. -/
theorem reachable_careful (hP : ∀ ok next, P ok next → ∀ s, ok s = true)
    (hbody : ∀ i op s, may i op s → (body i op).All P) (hinit : ∀ t, init t → ∀ i, (t.prog i).All P)
    (h : Reachable init (Any may) (apply body) t) : Reachable init (Careful may) (apply body) t := by
  induction h with
  | init h => exact .init h
  | @next t e hr hg ih =>
      refine ih.next ?_
      cases e with
      | start i op => exact hg
      | step i =>
          have hi := reachable_all hbody hinit hr i
          change (t.prog i).Clear t.state
          cases hp : t.prog i with
          | ret a => trivial
          | act ok next k =>
              rw [hp] at hi
              exact hP ok next hi.1 t.state

end All

end Threads

end Mlogv32.Logic
