import Mathlib

/-!
# Weakest preconditions of stateful computations with errors

`wp x Q E s` says that `x`, started in `s`, ends in a result with `Q` or in an error with `E`. The
lemmas of the `simp` set push `wp` through the operations of the monad.
-/

namespace Mlogv32.Logic

variable {ε σ α β : Type}

def wp (x : EStateM ε σ α) (Q : α → σ → Prop) (E : ε → σ → Prop) (s : σ) : Prop :=
  match x s with
  | .ok a s' => Q a s'
  | .error e s' => E e s'

section Rules

variable {Q : α → σ → Prop} {E : ε → σ → Prop} {s : σ}

@[simp] theorem wp_pure {a : α} : wp (pure a : EStateM ε σ α) Q E s ↔ Q a s := Iff.rfl

@[simp] theorem wp_throw {e : ε} : wp (throw e : EStateM ε σ α) Q E s ↔ E e s := Iff.rfl

@[simp] theorem wp_get {Q : σ → σ → Prop} : wp (get : EStateM ε σ σ) Q E s ↔ Q s s := Iff.rfl

@[simp] theorem wp_set {t : σ} {Q : PUnit → σ → Prop} :
    wp (set t : EStateM ε σ PUnit) Q E s ↔ Q ⟨⟩ t := Iff.rfl

@[simp] theorem wp_modify {f : σ → σ} {Q : PUnit → σ → Prop} :
    wp (modify f : EStateM ε σ PUnit) Q E s ↔ Q ⟨⟩ (f s) := Iff.rfl

@[simp] theorem wp_bind {x : EStateM ε σ α} {f : α → EStateM ε σ β} {Q : β → σ → Prop} :
    wp (x >>= f) Q E s ↔ wp x (fun a s' => wp (f a) Q E s') E s := by
  change (match EStateM.bind x f s with
    | .ok a s' => Q a s'
    | .error e s' => E e s') ↔ _
  unfold EStateM.bind wp
  cases x s <;> rfl

@[simp] theorem wp_ite {c : Prop} [Decidable c] {x y : EStateM ε σ α} :
    wp (if c then x else y) Q E s ↔ (c → wp x Q E s) ∧ (¬c → wp y Q E s) := by
  split
  · rename_i h
    exact ⟨fun hx => ⟨fun _ => hx, fun hn => absurd h hn⟩, fun hx => hx.1 h⟩
  · rename_i h
    exact ⟨fun hx => ⟨fun hc => absurd hc h, fun _ => hx⟩, fun hx => hx.2 h⟩

end Rules

theorem wp_intro {x : EStateM ε σ α} {Q : α → σ → Prop} {E : ε → σ → Prop} {s : σ}
    (hok : ∀ a s', x s = .ok a s' → Q a s') (herror : ∀ e s', x s = .error e s' → E e s') :
    wp x Q E s := by
  unfold wp
  cases hx : x s with
  | ok a s' => exact hok a s' hx
  | error e s' => exact herror e s' hx

theorem wp_mono {x : EStateM ε σ α} {Q Q' : α → σ → Prop} {E E' : ε → σ → Prop} {s : σ}
    (h : wp x Q E s) (hQ : ∀ a s', Q a s' → Q' a s') (hE : ∀ e s', E e s' → E' e s') :
    wp x Q' E' s := by
  unfold wp at h ⊢
  cases hx : x s with
  | ok a s' =>
      rw [hx] at h
      exact hQ a s' h
  | error e s' =>
      rw [hx] at h
      exact hE e s' h

theorem wp_and {x : EStateM ε σ α} {Q Q' : α → σ → Prop} {E E' : ε → σ → Prop} {s : σ}
    (h : wp x Q E s) (h' : wp x Q' E' s) :
    wp x (fun a s' => Q a s' ∧ Q' a s') (fun e s' => E e s' ∧ E' e s') s := by
  unfold wp at h h' ⊢
  cases hx : x s with
  | ok a s' =>
      rw [hx] at h h'
      exact ⟨h, h'⟩
  | error e s' =>
      rw [hx] at h h'
      exact ⟨h, h'⟩

/-- The result of a computation, from a postcondition that determines it. -/
theorem wp_ok {x : EStateM ε σ α} {Q : α → σ → Prop} {E : ε → σ → Prop} {s s' : σ} {a : α}
    (h : wp x Q E s) (hx : x s = .ok a s') : Q a s' := by
  unfold wp at h
  rw [hx] at h
  exact h

theorem wp_error {x : EStateM ε σ α} {Q : α → σ → Prop} {E : ε → σ → Prop} {s s' : σ} {e : ε}
    (h : wp x Q E s) (hx : x s = .error e s') : E e s' := by
  unfold wp at h
  rw [hx] at h
  exact h

theorem exists_ok_of_wp {x : EStateM ε σ α} {Q : α → σ → Prop} {s : σ}
    (h : wp x Q (fun _ _ => False) s) :
    ∃ a s', x s = .ok a s' ∧ Q a s' := by
  unfold wp at h
  cases hx : x s with
  | ok a s' =>
      rw [hx] at h
      exact ⟨a, s', rfl, h⟩
  | error e s' =>
      rw [hx] at h
      exact h.elim

/-- A computation that must fail with `e` in state `t`. -/
theorem eq_error_of_wp {x : EStateM ε σ α} {s t : σ} {e : ε}
    (h : wp x (fun _ _ => False) (fun e' s' => e' = e ∧ s' = t) s) : x s = .error e t := by
  unfold wp at h
  cases hx : x s with
  | ok a s' =>
      rw [hx] at h
      exact h.elim
  | error e' s' =>
      rw [hx] at h
      obtain ⟨rfl, rfl⟩ := h
      rfl

theorem eq_ok_of_wp {x : EStateM ε σ α} {s t : σ} {a : α}
    (h : wp x (fun a' s' => a' = a ∧ s' = t) (fun _ _ => False) s) : x s = .ok a t := by
  unfold wp at h
  cases hx : x s with
  | ok a' s' =>
      rw [hx] at h
      obtain ⟨rfl, rfl⟩ := h
      rfl
  | error e s' =>
      rw [hx] at h
      exact h.elim

/-! ## Runs of a sequence -/

theorem bind_ok {x : EStateM ε σ α} {f : α → EStateM ε σ β} {s s' : σ} {a : α} (hx : x s = .ok a s') :
    (x >>= f) s = f a s' := by
  change EStateM.bind x f s = _
  rw [EStateM.bind, hx]

theorem bind_get {f : σ → EStateM ε σ α} {s : σ} : (get >>= f) s = f s s := rfl

theorem bind_error {x : EStateM ε σ α} {f : α → EStateM ε σ β} {s s' : σ} {e : ε}
    (hx : x s = .error e s') : (x >>= f) s = .error e s' := by
  change EStateM.bind x f s = _
  rw [EStateM.bind, hx]

/-- Only the result of the first computation matters. -/
theorem bind_apply_congr {x y : EStateM ε σ α} {f : α → EStateM ε σ β} {s : σ} (h : x s = y s) :
    (x >>= f) s = (y >>= f) s := by
  change EStateM.bind x f s = EStateM.bind y f s
  rw [EStateM.bind, EStateM.bind, h]

/-! ## Frames -/

/-- The computation keeps the part `f` of the state. -/
def Keeps {β : Type} (f : σ → β) (x : EStateM ε σ α) : Prop :=
  ∀ s, wp x (fun _ s' => f s' = f s) (fun _ s' => f s' = f s) s

section Keeps

variable {γ : Type} {f : σ → γ}

theorem keeps_pure (a : α) : Keeps f (pure a : EStateM ε σ α) := fun _ => rfl

theorem keeps_throw (e : ε) : Keeps f (throw e : EStateM ε σ α) := fun _ => rfl

theorem keeps_get : Keeps f (get : EStateM ε σ σ) := fun _ => rfl

theorem keeps_modify {g : σ → σ} (h : ∀ s, f (g s) = f s) : Keeps f (modify g : EStateM ε σ PUnit) := h

theorem Keeps.bind {x : EStateM ε σ α} {g : α → EStateM ε σ β} (hx : Keeps f x)
    (hg : ∀ a, Keeps f (g a)) :
    Keeps f (x >>= g) := fun s =>
  wp_bind.mpr (wp_mono (hx s)
    (fun a s' h => wp_mono (hg a s') (fun _ _ h' => h'.trans h) fun _ _ h' => h'.trans h) fun _ _ h => h)

theorem Keeps.ite {c : Prop} [Decidable c] {x y : EStateM ε σ α} (hx : Keeps f x) (hy : Keeps f y) :
    Keeps f (if c then x else y) := by
  split
  · exact hx
  · exact hy

end Keeps

/-! ## Invariants -/

/-- The computation keeps the invariant, unless it ends in an error, which then meets `E`. -/
def Maintains (I : σ → Prop) (E : ε → Prop) (x : EStateM ε σ α) : Prop :=
  ∀ s, I s → wp x (fun _ s' => I s') (fun e _ => E e) s

section Maintains

variable {I : σ → Prop} {E : ε → Prop}

theorem maintains_pure (a : α) : Maintains I E (pure a : EStateM ε σ α) := fun _ h => h

theorem Maintains.bind {x : EStateM ε σ α} {g : α → EStateM ε σ β} (hx : Maintains I E x)
    (hg : ∀ a, Maintains I E (g a)) : Maintains I E (x >>= g) := fun s h =>
  wp_bind.mpr (wp_mono (hx s h) (fun a s' h' => hg a s' h') fun _ _ h' => h')

theorem Maintains.ok {x : EStateM ε σ α} (hx : Maintains I E x) {s s' : σ} {a : α} (h : I s)
    (hrun : x s = .ok a s') : I s' := wp_ok (hx s h) hrun

theorem Maintains.error {x : EStateM ε σ α} (hx : Maintains I E x) {s s' : σ} {e : ε} (h : I s)
    (hrun : x s = .error e s') : E e := wp_error (hx s h) hrun

end Maintains

end Mlogv32.Logic
