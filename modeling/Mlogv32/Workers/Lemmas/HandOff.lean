import Mlogv32.Workers.Lemmas.Prologue

/-!
# What a system of workers shows

At the start of an activation one processor holds the hart: the last worker, or the controller after
a reset. The other workers wait at `next_tick`, or are on the way to it.
-/

namespace Mlogv32.Workers
open Mlog

variable {W Obj Env : Type} [DecidableEq W] {b : Body W Obj Env} {s : System W Obj Env}
  {t : Thread W Obj Env} {w : W}

/-! ## Waiting workers -/

/-- The value of a constant. -/
def Code.constant (b : Code W Obj Env) (x : String) : Val W Obj :=
  if x = "RAM_START_PROC" then .num (opIdiv (b.config "ROM_SIZE").toNum Cpu.romProcBytes) else b.config x

/-- A worker that does not hold the hart. -/
structure Waits (b : Body W Obj Env) (x : Worker W Obj) : Prop where
  counter : x.counter ≤ nextTick
  waiting : x.waiting = true → x.counter + 1 = nextTick
  constant : ∀ y ∈ constants.take (x.counter - 1), x.vars y = b.constant y

omit [DecidableEq W] in
theorem Waits.reset (b : Body W Obj Env) (v : Vars W Obj) :
    Waits b { counter := 0, waiting := false, vars := v } :=
  ⟨Nat.zero_le _, by rintro ⟨⟩, by rintro y ⟨⟩⟩

omit [DecidableEq W] in
theorem Waits.loaded {x : Worker W Obj} (h : Waits b x) (hcounter : x.counter = nextTick) :
    x.waiting = false ∧ ∀ y ∈ constants, x.vars y = b.constant y := by
  refine ⟨?_, fun y hy => h.constant y ?_⟩
  · cases hw : x.waiting with
    | false => rfl
    | true =>
        have := h.waiting hw
        omega
  · rw [hcounter]
    exact hy

/-- The statements from `reset` to `next_tick`, in order. -/
theorem resetStmts_cases : ∀ c < nextTick,
    (program[c]? = some .setrate ∧ c + 1 < nextTick ∧ constants.take c = []) ∨
    (program[c]? = some .wait ∧ c + 1 = nextTick) ∨
    ∃ y ∈ constants, c + 1 < nextTick ∧ constants.take c = constants.take (c - 1) ++ [y] ∧
      ((program[c]? = some (.config y) ∧ y ≠ "RAM_START_PROC") ∨
        (program[c]? = some .ramStartProc ∧ y = "RAM_START_PROC" ∧
          "ROM_SIZE" ∈ constants.take (c - 1))) := by
  decide

theorem constants_ne_fetchVariables : ∀ x ∈ constants, x ∉ fetchVariables := by decide

/-! ## The relation -/

structure Shows (b : Body W Obj Env) (s : System W Obj Env) (t : Thread W Obj Env) : Prop where
  env : s.env = t.env
  prevProc : s.prevProc = .controller ∨ ∃ o, s.prevProc = .worker o
  vars : ∀ x ∈ fetchVariables, s.vars s.prevProc x = t.vars x
  constant : ∀ x ∈ constants, t.vars x = b.constant x
  counter : t.counter = 0 ∨ pollInterrupts ≤ t.counter
  stopped : t.counter = 0 → t.vars "state" ∈ [Val.str "halt", Val.str "reset"]
  waiting : t.waiting = true → t.vars "state" = .str "pause"
  controller : s.prevProc = .controller → t.counter ≠ 0 →
    t.counter = pollInterrupts ∧ t.waiting = false ∧ t.vars "state" = .str "running"
  holder : ∀ o, s.prevProc = .worker o → t.counter ≠ 0 →
    (s.workers o).counter = t.counter ∧ (s.workers o).waiting = t.waiting ∧
      ∀ x ∈ constants, (s.workers o).vars x = b.constant x
  waits : ∀ w, (t.counter ≠ 0 → s.prevProc ≠ .worker w) → Waits b (s.workers w)
  inv : t.counter ≠ 0 → b.Inv t

omit [DecidableEq W] in
theorem Shows.agrees (h : Shows b s t) (hw : s.prevProc = .worker w) (hcounter : t.counter ≠ 0) :
    ∀ x ∈ fetchVariables ++ constants, (s.workers w).vars x = t.vars x := by
  intro x hx
  rcases List.mem_append.1 hx with hx | hx
  · have hvars := h.vars x hx
    rw [hw] at hvars
    exact hvars
  · rw [(h.holder w hw hcounter).2.2 x hx, h.constant x hx]

variable {s' : System W Obj Env} {t' : Thread W Obj Env}

omit [DecidableEq W] in
theorem Shows.hold (henv : s'.env = t'.env) (hprev : s'.prevProc = .worker w)
    (hcounter : pollInterrupts ≤ t'.counter)
    (hself : (s'.workers w).counter = t'.counter ∧ (s'.workers w).waiting = t'.waiting)
    (hvars : ∀ x ∈ fetchVariables ++ constants, (s'.workers w).vars x = t'.vars x)
    (hconstant : ∀ x ∈ constants, t'.vars x = b.constant x)
    (hwaiting : t'.waiting = true → t'.vars "state" = .str "pause")
    (hothers : ∀ w' ≠ w, Waits b (s'.workers w')) (hinv : t'.counter ≠ 0 → b.Inv t') :
    Shows b s' t' := by
  refine ⟨henv, .inr ⟨w, hprev⟩, ?_, hconstant, .inr hcounter, ?_, hwaiting, ?_, ?_, ?_, hinv⟩
  · intro x hx
    rw [hprev]
    exact hvars x (List.mem_append_left _ hx)
  · exact fun heq => absurd (hcounter.trans_eq heq) (by decide)
  · exact fun hcontroller => absurd (hprev.symm.trans hcontroller) (by rintro ⟨⟩)
  · intro o ho _
    cases hprev.symm.trans ho
    exact ⟨hself.1, hself.2, fun x hx => (hvars x (List.mem_append_right _ hx)).trans (hconstant x hx)⟩
  · intro w' hw'
    refine hothers w' fun heq => ?_
    exact hw' (fun h0 => absurd (hcounter.trans_eq h0) (by decide)) (heq ▸ hprev)

omit [DecidableEq W] in
theorem Shows.control (henv : s'.env = t'.env) (hprev : s'.prevProc = .controller)
    (hcounter : (t'.counter = 0 ∧ t'.vars "state" = .str "halt") ∨
      (t'.counter = pollInterrupts ∧ t'.vars "state" = .str "running"))
    (hvars : ∀ x ∈ fetchVariables, s'.controller x = t'.vars x)
    (hconstant : ∀ x ∈ constants, t'.vars x = b.constant x)
    (hwaiting : t'.waiting = false) (hothers : ∀ w', Waits b (s'.workers w'))
    (hinv : t'.counter ≠ 0 → b.Inv t') :
    Shows b s' t' := by
  refine ⟨henv, .inl hprev, ?_, hconstant, ?_, ?_, ?_, ?_, ?_, fun w' _ => hothers w', hinv⟩
  · intro x hx
    rw [hprev]
    exact hvars x hx
  · exact hcounter.imp And.left fun h => h.1.ge
  · intro heq
    rcases hcounter with ⟨-, hstate⟩ | ⟨hpoll, -⟩
    · rw [hstate]
      exact List.mem_cons_self
    · exact absurd (hpoll.symm.trans heq) (by decide)
  · exact fun heq => absurd (hwaiting.symm.trans heq) (by decide)
  · exact fun _ hne => (hcounter.resolve_left fun h => hne h.1).imp_right fun hstate =>
      ⟨hwaiting, hstate⟩
  · exact fun o ho => absurd (hprev.symm.trans ho) (by rintro ⟨⟩)

omit [DecidableEq W] in
theorem Shows.waiting_eq_false (h : Shows b s t) (hstate : t.vars "state" ≠ .str "pause") :
    t.waiting = false := by
  cases hw : t.waiting with
  | false => rfl
  | true => exact absurd (h.waiting hw) hstate

omit [DecidableEq W] in
theorem Shows.counter_ne (h : Shows b s t)
    (hstate : t.vars "state" ≠ .str "halt" ∧ t.vars "state" ≠ .str "reset") :
    t.counter ≠ 0 := by
  intro heq
  have hstopped := h.stopped heq
  simp [hstate] at hstopped

/-! ## Steps of a worker that waits -/

/-- A worker that does not hold the hart can change as long as it waits. -/
theorem Shows.setWaiting (h : Shows b s t) (hw : t.counter ≠ 0 → s.prevProc ≠ .worker w)
    {x : Worker W Obj} (hx : Waits b x)
    (hvars : s.prevProc = .worker w → ∀ y ∈ fetchVariables, x.vars y = (s.workers w).vars y) :
    Shows b (s.setWorker w x) t := by
  have hne {w' : W} (hw' : w' ≠ w) : (s.setWorker w x).workers w' = s.workers w' :=
    Function.update_of_ne hw' ..
  refine ⟨h.env, h.prevProc, fun y hy => ?_, h.constant, h.counter, h.stopped, h.waiting,
    h.controller, fun o ho hcounter => ?_,
    fun w' hw' => ?_, h.inv⟩
  · rw [← h.vars y hy]
    rcases h.prevProc with hp | ⟨o, hp⟩
    · change (s.setWorker w x).vars s.prevProc y = _
      rw [hp]
      rfl
    · change (s.setWorker w x).vars s.prevProc y = _
      rw [hp]
      by_cases ho : o = w
      · subst ho
        exact (congrArg (fun x : Worker W Obj => x.vars y) (setWorker_workers x)).trans (hvars hp y hy)
      · exact congrArg (fun x : Worker W Obj => x.vars y) (hne ho)
  · have ho' : o ≠ w := by
      rintro rfl
      exact hw hcounter ho
    rw [hne ho']
    exact h.holder o ho hcounter
  · by_cases heq : w' = w
    · subst heq
      rwa [setWorker_workers]
    · rw [hne heq]
      exact h.waits w' hw'

section

variable [DecidableEq Obj]

/-- The thread does the events, and the system shows where it ends. -/
def Follows (b : Body W Obj Env) (t : Thread W Obj Env) (es : List (ThreadEvent W Obj Env))
    (s' : System W Obj Env) :
    Prop :=
  ∃ t', t.run b es = some t' ∧ Shows b s' t'

theorem Follows.cons {e : ThreadEvent W Obj Env} {es : List (ThreadEvent W Obj Env)}
    (hallows : t.Allows e) (h : Follows b (t.apply b e) es s') : Follows b t (e :: es) s' := by
  obtain ⟨t', hrun, hshows⟩ := h
  exact ⟨t', (if_pos hallows).trans hrun, hshows⟩

theorem Follows.append {es es' : List (ThreadEvent W Obj Env)} :
    ∀ {t : Thread W Obj Env}, t.run b es = some t' → Follows b t' es' s' →
    Follows b t (es ++ es') s' := by
  induction es with
  | nil =>
      intro t hrun h
      cases hrun
      exact h
  | cons e es ih =>
      intro t hrun h
      rw [Thread.run] at hrun
      split at hrun
      · exact .cons ‹_› (ih hrun h)
      · cases hrun

theorem step_eq (b : Body W Obj Env) {st : Stmt} (hst : program[(s.workers w).counter]? = some st) :
    s.step b w = s.stepStmt b w st := by
  unfold System.step
  dsimp only
  rw [hst]

/-- A worker that waits, before `next_tick`, for any budget. -/
theorem Shows.activate_waiting (n : Nat) : ∀ {s : System W Obj Env}, Shows b s t →
    (t.counter ≠ 0 → s.prevProc ≠ .worker w) → (s.workers w).counter < nextTick →
    (s.workers w).waiting = false →
      (Shows b (s.activate b w n) t ∧ s.activateEvents b w n = []) ∧
        (nextTick ≤ (s.workers w).counter + n → ((s.activate b w n).workers w).waiting = true) := by
  induction n with
  | zero => exact fun h _ hlt _ => ⟨⟨h, rfl⟩, fun hle => absurd hlt hle.not_gt⟩
  | succ n ih =>
      intro s h hw hlt hwaiting
      have hx := h.waits w hw
      -- A statement that is not a `wait` leaves a worker that waits, and is no event.
      have hgo {st : Stmt} (hst : program[(s.workers w).counter]? = some st)
          (hne : st ≠ .wait ∧ st ≠ .writePrevProc)
          {x : Worker W Obj} (hstep : s.stepStmt b w st = s.setWorker w x) (hx' : Waits b x)
          (hvars : ∀ y ∈ fetchVariables, x.vars y = (s.workers w).vars y)
          (hnext : x.counter = (s.workers w).counter + 1)
          (hlt' : x.counter < nextTick) (hwaiting' : x.waiting = false) :
          (Shows b (s.activate b w (n + 1)) t ∧ s.activateEvents b w (n + 1) = []) ∧
            (nextTick ≤ (s.workers w).counter + (n + 1) →
              ((s.activate b w (n + 1)).workers w).waiting = true) := by
        have hruns : Runs b w 1 s (s.setWorker w x) [] := by
          have hruns := Runs.stmt (b := b) hst fun heq => absurd heq hne.1
          rwa [if_neg hne.2, hstep] at hruns
        have hshows := h.setWaiting hw hx' fun _ => hvars
        obtain ⟨⟨hactivate, hevents⟩, hwaits⟩ :=
          ih hshows hw (by rwa [setWorker_workers]) (by rwa [setWorker_workers])
        obtain ⟨hs, he⟩ := hruns.activate n
        rw [Nat.add_comm n 1, hs, he, hevents]
        refine ⟨⟨hactivate, rfl⟩, fun hle => hwaits ?_⟩
        rw [setWorker_workers, hnext]
        omega
      rcases resetStmts_cases _ hlt with ⟨hst, hlt', htake⟩ | ⟨hst, hnext⟩ | ⟨y, hy, hlt', htake, hst⟩
      · refine hgo hst (by decide) (x := { s.workers w with counter := (s.workers w).counter + 1 }) rfl
          ⟨hlt'.le, fun heq => absurd (hwaiting.symm.trans heq) (by decide), ?_⟩
            (fun _ _ => rfl) rfl hlt' hwaiting
        rw [Nat.add_sub_cancel, htake]
        rintro z ⟨⟩
      · have hyields : s.yields b w = true := by
          unfold System.yields
          dsimp only
          rw [hst, hwaiting]
          rfl
        have hstep : s.step b w = s.setWorker w { s.workers w with waiting := true } := by
          rw [step_eq b hst, System.stepStmt, hwaiting, if_neg Bool.false_ne_true]
        have hevents : s.stepEvents w = [] := by
          unfold System.stepEvents
          rw [hst]
          rfl
        rw [System.activate, System.activateEvents, hyields, if_pos rfl, if_pos rfl, hstep, hevents]
        refine ⟨⟨h.setWaiting hw ⟨hx.counter, fun _ => hnext, hx.constant⟩ fun _ _ _ => rfl, rfl⟩,
          fun _ => ?_⟩
        rw [setWorker_workers]
      · have hassign : ∀ z, s.assign w y z =
            s.setWorker w { counter := (s.workers w).counter + 1, waiting := false,
                            vars := Function.update (s.workers w).vars y z } := by
          intro z
          rw [System.assign, System.write, System.next, setWorker_workers, setWorker_setWorker]
          dsimp only
          rw [hwaiting]
        have hload : Waits b { counter := (s.workers w).counter + 1, waiting := false,
                               vars := Function.update (s.workers w).vars y (b.constant y) } := by
          refine ⟨hlt'.le, by rintro ⟨⟩, fun z hz => ?_⟩
          rw [Nat.add_sub_cancel, htake] at hz
          dsimp only
          by_cases heq : z = y
          · rw [heq, Function.update_self]
          · rw [Function.update_of_ne heq]
            exact hx.constant z ((List.mem_append.1 hz).resolve_right fun h =>
              heq (List.mem_singleton.1 h))
        have hkeep : ∀ z ∈ fetchVariables, Function.update (s.workers w).vars y (b.constant y) z =
            (s.workers w).vars z :=
          fun z hz => Function.update_of_ne
          (fun heq : z = y => constants_ne_fetchVariables y hy (heq ▸ hz)) ..
        rcases hst with ⟨hst, hne⟩ | ⟨hst, rfl, hsize⟩
        · refine hgo hst ⟨by rintro ⟨⟩, by rintro ⟨⟩⟩ ?_ hload hkeep rfl hlt' rfl
          rw [System.stepStmt, hassign, Code.constant, if_neg hne]
        · refine hgo hst (by decide) ?_ hload hkeep rfl hlt' rfl
          have hrom : (s.workers w).vars "ROM_SIZE" = b.config "ROM_SIZE" :=
            (hx.constant _ hsize).trans (if_neg (by decide))
          rw [System.stepStmt, hassign, hrom, Code.constant, if_pos rfl]

/-! ## Steps of the worker that holds the hart -/

theorem program_eq_none {c : Nat} (h : pollInterrupts ≤ c) : program[c]? = none :=
  List.getElem?_eq_none h

theorem Shows.step (h : Shows b s t) (hw : s.prevProc = .worker w) (hcounter : t.counter ≠ 0) :
    (Shows b (s.step b w) (t.apply b (.step t.counter)) ∧ s.stepEvents w = [.step t.counter]) ∧
    (s.step b w).prevProc = .worker w ∧
      ((t.apply b (.step t.counter)).counter = 0 →
        ((s.step b w).workers w).counter = 0 ∧ ((s.step b w).workers w).waiting = false) := by
  obtain ⟨hc, hwaiting, hconstant⟩ := h.holder w hw hcounter
  have hpoll : pollInterrupts ≤ t.counter := h.counter.resolve_left hcounter
  have hnone : program[(s.workers w).counter]? = none := program_eq_none (hc ▸ hpoll)
  obtain ⟨⟨hcounter', hwaiting', -, henv⟩, hvars⟩ :=
    b.congr t.counter t.waiting t.vars (s.workers w).vars t.env (h.agrees hw hcounter)
  have hstep : s.step b w =
      { s.setWorker w
          { counter := (b.exec t.counter t.waiting (s.workers w).vars t.env).counter
            waiting := (b.exec t.counter t.waiting (s.workers w).vars t.env).waiting
            vars := (b.exec t.counter t.waiting (s.workers w).vars t.env).vars } with
        env := (b.exec t.counter t.waiting (s.workers w).vars t.env).env } := by
    unfold System.step
    dsimp only
    rw [hnone, hc, hwaiting, h.env]
  have hframe : ∀ x ∈ constants, (b.exec t.counter t.waiting (s.workers w).vars t.env).vars x =
      b.constant x := fun x hx =>
    (b.frame _ _ _ _ x (constants_ne_fetchVariables x hx)).trans (hconstant x hx)
  generalize hr : b.exec t.counter t.waiting (s.workers w).vars t.env = r at *
  have hself : (s.step b w).workers w =
      { counter := r.counter, waiting := r.waiting, vars := r.vars } := by
    rw [hstep]
    exact setWorker_workers _
  have hne {w' : W} (hw' : w' ≠ w) : (s.step b w).workers w' = s.workers w' := by
    rw [hstep]
    exact Function.update_of_ne hw' ..
  have hprev : (s.step b w).prevProc = .worker w := by
    rw [hstep]
    exact hw
  have hstate : r.vars "state" = (t.apply b (.step t.counter)).vars "state" := hvars _ (by decide)
  have hallows : t.Allows (.step t.counter) := ⟨rfl, hpoll⟩
  have hjump := b.counter t (h.inv hcounter) hallows
  have hzero : (t.apply b (.step t.counter)).counter = 0 ∨
      pollInterrupts ≤ (t.apply b (.step t.counter)).counter :=
    hjump.symm.imp_left And.left
  have hreset : (t.apply b (.step t.counter)).counter = 0 → ((s.step b w).workers w).counter = 0 ∧
      ((s.step b w).workers w).waiting = false := by
    intro heq
    rcases hjump with hge | ⟨-, hwait0, -⟩
    · exact absurd (hge.trans_eq heq) (by decide)
    · rw [hself]
      exact ⟨hcounter'.trans heq, hwaiting'.trans hwait0⟩
  refine ⟨⟨⟨?_, .inr ⟨w, hprev⟩, ?_, ?_, hzero, ?_, b.waiting t (h.inv hcounter) hallows, ?_, ?_, ?_,
    b.inv t _ h.inv hallows (by rintro _ _ ⟨⟩)⟩, ?_⟩, hprev, hreset⟩
  · rw [hstep]
    exact henv
  · intro x hx
    rw [hprev]
    exact (congrArg (fun y : Worker W Obj => y.vars x) hself).trans (hvars x hx)
  · intro x hx
    exact (b.frame _ _ _ _ x (constants_ne_fetchVariables x hx)).trans (h.constant x hx)
  · intro heq
    rcases hjump with hge | ⟨-, -, hst⟩
    · exact absurd (hge.trans_eq heq) (by decide)
    · exact hst
  · intro hcontroller
    exact absurd (hprev.symm.trans hcontroller) (by rintro ⟨⟩)
  · intro o ho _
    cases hprev.symm.trans ho
    rw [hself]
    exact ⟨hcounter', hwaiting', hframe⟩
  · intro w' hw'
    by_cases heq : w' = w
    · subst heq
      obtain ⟨hc0, hw0⟩ := hreset (by
        by_contra hne0
        exact hw' hne0 hprev)
      exact ⟨hc0.trans_le (Nat.zero_le _), fun heq => absurd (hw0.symm.trans heq) (by decide), by
        rw [hc0]
        rintro y ⟨⟩⟩
    · rw [hne heq]
      refine h.waits w' fun _ hprev' => heq ?_
      cases hw.symm.trans hprev'
      rfl
  · unfold System.stepEvents
    rw [hnone, hc]

theorem Shows.activate_holder (n : Nat) : ∀ {s : System W Obj Env} {t : Thread W Obj Env}, Shows b s t →
    s.prevProc = .worker w → (t.counter = 0 → (s.workers w).counter < nextTick ∧
      (s.workers w).waiting = false) →
      Follows b t (s.activateEvents b w n) (s.activate b w n) := by
  induction n with
  | zero => exact fun h _ _ => ⟨_, rfl, h⟩
  | succ n ih =>
      intro s t h hw hreset
      by_cases hcounter : t.counter = 0
      · obtain ⟨⟨hshows, hevents⟩, -⟩ :=
          h.activate_waiting (n + 1) (absurd hcounter) (hreset hcounter).1 (hreset hcounter).2
        rw [hevents]
        exact ⟨t, rfl, hshows⟩
      · obtain ⟨⟨hshows, hevents⟩, hprev, hreset'⟩ := h.step hw hcounter
        rw [System.activate, System.activateEvents, hevents]
        refine .cons ⟨rfl, h.counter.resolve_left hcounter⟩ ?_
        cases s.yields b w with
        | true => exact ⟨_, rfl, hshows⟩
        | false => exact ih hshows hprev fun heq =>
            ⟨(hreset' heq).1.trans_lt (by decide), (hreset' heq).2⟩

/-! ## The prologue -/

omit [DecidableEq W] [DecidableEq Obj] in
theorem update_congr {v v' : Vars W Obj} {x y : String} {z : Val W Obj} (h : v y = v' y) :
    Function.update v x z y = Function.update v' x z y := by
  by_cases heq : y = x
  · rw [heq, Function.update_self, Function.update_self]
  · rw [Function.update_of_ne heq, Function.update_of_ne heq, h]

omit [DecidableEq W] [DecidableEq Obj] in
theorem incrementMcycle_congr (b : Code W Obj Env) {t t' : Thread W Obj Env} (henv : t'.env = t.env)
    (hvars : ∀ x ∈ fetchVariables ++ constants, t'.vars x = t.vars x) :
    (t'.incrementMcycle b).env = (t.incrementMcycle b).env ∧
      ∀ x ∈ fetchVariables ++ constants, (t'.incrementMcycle b).vars x =
        (t.incrementMcycle b).vars x := by
  unfold Thread.incrementMcycle
  dsimp only
  rw [hvars "csr_mcycle" (by decide), henv]
  split
  · exact ⟨rfl, fun x hx => update_congr (hvars x hx)⟩
  · exact ⟨rfl, fun x hx => update_congr (hvars x hx)⟩

omit [DecidableEq W] [DecidableEq Obj] in
theorem incrementMcycle_of_ne (b : Code W Obj Env) (t : Thread W Obj Env) {x : String}
    (hx : x ≠ "csr_mcycle") :
    (t.incrementMcycle b).vars x = t.vars x := by
  unfold Thread.incrementMcycle
  dsimp only
  split <;> exact Function.update_of_ne hx ..

omit [DecidableEq W] [DecidableEq Obj] in
theorem incrementMcycle_counter (b : Code W Obj Env) (t : Thread W Obj Env) :
    (t.incrementMcycle b).counter = t.counter ∧ (t.incrementMcycle b).waiting = t.waiting := by
  unfold Thread.incrementMcycle
  dsimp only
  split <;> exact ⟨rfl, rfl⟩

omit [DecidableEq W] [DecidableEq Obj] in
theorem Shows.handOff (h : Shows b s t) (hallows : t.Allows .handOff) {v : Vars W Obj}
    (henv : s'.env = (t.incrementMcycle b).env) (hprev : s'.prevProc = .worker w)
    (hself : s'.workers w = { counter := t.counter, waiting := false, vars := v })
    (hvars : ∀ x ∈ fetchVariables ++ constants, v x = (t.incrementMcycle b).vars x)
    (hothers : ∀ w' ≠ w, Waits b (s'.workers w')) : Shows b s' (t.incrementMcycle b) := by
  have hinv := b.inv t .handOff h.inv hallows (by rintro _ _ ⟨⟩)
  obtain ⟨hcounter, hwaiting, -⟩ := hallows
  have hcounter' := incrementMcycle_counter b t
  refine .hold henv hprev ?_ ?_ (by rwa [hself]) ?_ ?_ hothers hinv
  · rw [hcounter'.1]
    exact h.counter.resolve_left hcounter
  · rw [hself, hcounter'.1, hcounter'.2, hwaiting]
    exact ⟨rfl, rfl⟩
  · intro x hx
    rw [incrementMcycle_of_ne b t (by rintro rfl; revert hx; decide), h.constant x hx]
  · exact fun heq => absurd (hcounter'.2.symm.trans heq) (by rw [hwaiting]; decide)

omit [DecidableEq Obj] in
theorem place_self {c : Nat} {v : Vars W Obj}
    (h : s.workers w = { counter := c, waiting := false, vars := v }) :
    s = s.place w c v := by
  rw [System.place, System.setWorker, ← h, Function.update_eq_self]

/-- What a worker knows when it has fetched the variables. -/
structure Fetched (b : Body W Obj Env) (s : System W Obj Env) (t : Thread W Obj Env)
    (v : Vars W Obj) : Prop where
  prevProc : v "prev_proc" = s.prevProc
  vars : ∀ x ∈ fetchVariables ++ constants, v x = t.vars x

/-- The statements from `next_tick` to `end_fetch`. -/
theorem Shows.runs_nextTick (h : Shows b s t) (hw : t.counter ≠ 0 → s.prevProc ≠ .worker w)
    (hcounter : (s.workers w).counter = nextTick) :
    ∃ v, Fetched b s t v ∧ Runs b w (fetchVariables.length + 1) s (s.place w takeOver v) [] := by
  obtain ⟨hwaiting, hconstant⟩ := (h.waits w hw).loaded hcounter
  have hread : Runs b w 1 s
      (s.place w (nextTick + 1) (Function.update (s.workers w).vars "prev_proc" s.prevProc)) [] := by
    have hself : s.workers w =
        { counter := nextTick, waiting := false, vars := (s.workers w).vars } := by
      rw [← hcounter, ← hwaiting]
    have hplace : Runs b w 1 (s.place w nextTick (s.workers w).vars)
        (s.place w (nextTick + 1) (Function.update (s.workers w).vars "prev_proc" s.prevProc)) [] :=
      .to .readPrevProc rfl (by decide) (by
        rw [System.stepStmt, place_assign]
        rfl)
    rwa [← place_self hself] at hplace
  have hne {x : String} (hx : x ≠ "prev_proc") :
      Function.update (s.workers w).vars "prev_proc" s.prevProc x = (s.workers w).vars x :=
        Function.update_of_ne hx ..
  have hfetched : ∀ x ∈ fetchVariables, x ≠ "prev_proc" := by decide
  have hconstants : ∀ x ∈ constants, x ≠ "prev_proc" := by decide
  have hfetch := runs_fetch (b := b) (s := s) (w := w) (p := s.prevProc)
    (v := Function.update (s.workers w).vars "prev_proc" s.prevProc) (Function.update_self ..)
    (fun hp x hx => by rw [hne (hfetched x hx), hp]; rfl) le_rfl
  rw [List.take_length] at hfetch
  refine ⟨_, ⟨?_, ?_⟩, by rw [Nat.add_comm]; exact hread.trans hfetch⟩
  · rw [fetchedFrom, written, if_neg (by decide), Function.update_self]
  · intro x hx
    unfold fetchedFrom written
    rcases List.mem_append.1 hx with hx | hx
    · rw [if_pos hx, h.vars x hx]
    · rw [if_neg (constants_ne_fetchVariables x hx), hne (hconstants x hx),
        hconstant x hx, h.constant x hx]

/-- The hart does not run, and the worker goes back to `reset`. -/
theorem Shows.jumpReset (h : Shows b s t) (hw : t.counter ≠ 0 → s.prevProc ≠ .worker w)
    (hcounter : (s.workers w).counter = nextTick) (hstate : t.vars "state" ≠ .str "running") :
    ∃ v, Runs b w (fetchVariables.length + 2) s (s.place w 0 v) [] ∧ Shows b (s.place w 0 v) t := by
  obtain ⟨v, hv, hruns⟩ := h.runs_nextTick hw hcounter
  have hjump : Runs b w 1 (s.place w takeOver v) (s.place w 0 v) [] :=
    .to .jumpReset rfl (by decide) (by
      rw [System.stepStmt, place_jump, place_workers]
      exact congrArg (s.place w · v) (if_pos fun heq =>
        hstate ((hv.vars "state" (by decide)).symm.trans heq)))
  refine ⟨v, hruns.trans hjump, h.setWaiting hw (.reset b v) fun hp x hx => ?_⟩
  have hvars := h.vars x hx
  rw [hp] at hvars
  exact (hv.vars x (List.mem_append_left _ hx)).trans hvars.symm

/-- The hart runs, and the worker takes it over. -/
theorem Shows.takeOver (h : Shows b s t) (hw : t.counter ≠ 0 → s.prevProc ≠ .worker w)
    (hcounter : (s.workers w).counter = nextTick) (hstate : t.vars "state" = .str "running") :
    ∃ k s', k ≤ prologue.length ∧ Runs b w k s s' [.handOff] ∧ Shows b s' (t.apply b .handOff) ∧
      s'.prevProc = .worker w ∧ (t.apply b .handOff).counter ≠ 0 := by
  have hne0 : t.counter ≠ 0 := h.counter_ne (by simp [hstate])
  have hwait : t.waiting = false := h.waiting_eq_false (by simp [hstate])
  have hallows : t.Allows .handOff := ⟨hne0, hwait, hstate⟩
  have hcounter' : (t.apply b .handOff).counter ≠ 0 := by
    rw [Thread.apply, (incrementMcycle_counter b t).1]
    exact hne0
  obtain ⟨v, hv, hruns⟩ := h.runs_nextTick hw hcounter
  have hjump : Runs b w 1 (s.place w Workers.takeOver v) (s.place w (Workers.takeOver + 1) v) [] :=
    .to .jumpReset rfl (by decide) (by
      rw [System.stepStmt, place_jump, place_workers]
      exact congrArg (s.place w · v)
        (if_neg (not_not_intro ((hv.vars "state" (by decide)).trans hstate))))
  let s₁ := s.write "prev_proc" (.worker w) .controller
  have hwrite : Runs b w 1 (s.place w (Workers.takeOver + 1) v)
      (s₁.place w (Workers.takeOver + 2) v) [.handOff] := by
    have hplace : Runs b w 1 (s.place w (Workers.takeOver + 1) v)
        ((s.place w (Workers.takeOver + 1) v).stepStmt b w .writePrevProc) [.handOff] :=
      runs_place b s w v rfl (by decide)
    have hnext : (s.place w (Workers.takeOver + 1) v).stepStmt b w .writePrevProc =
        s₁.place w (Workers.takeOver + 2) v :=
      place_next (s := s₁)
    rwa [hnext] at hplace
  obtain ⟨k, v', hk, hincrement, hv'⟩ := runs_increment b s₁ w v
  have hsame : (Thread.incrementMcycle b ⟨0, false, v, s₁.env⟩).env = (t.incrementMcycle b).env ∧
      ∀ x ∈ fetchVariables ++ constants,
        (Thread.incrementMcycle b ⟨0, false, v, s₁.env⟩).vars x = (t.incrementMcycle b).vars x :=
    incrementMcycle_congr b.toCode h.env hv.vars
  have hvars : ∀ x ∈ fetchVariables ++ constants, v' x = (t.incrementMcycle b).vars x := fun x hx =>
    (hv' x (by rintro rfl; revert hx; decide)).trans (hsame.2 x hx)
  have hprev : v' "prev_proc" = s.prevProc := by
    rw [hv' _ (by decide), incrementMcycle_of_ne _ _ (by decide)]
    exact hv.prevProc
  have hstart := ((hruns.trans hjump).trans hwrite).trans hincrement
  generalize hs₂ : ({ s₁ with env := (Thread.incrementMcycle b ⟨0, false, v, s₁.env⟩).env } : System
    W Obj Env) = s₂ at hstart
  have henv : s₂.env = (t.incrementMcycle b).env := by rw [← hs₂, ← hsame.1]
  have hcontroller : s₂.prevProc = .worker w := by
    rw [← hs₂]
    change Function.update s.controller "prev_proc" (.worker w) "prev_proc" = .worker w
    exact Function.update_self ..
  have hworkers : s₂.workers = s.workers := by rw [← hs₂]; rfl
  rcases h.prevProc with hp | ⟨o, hp⟩
  · have hpoll := runs_poll b s₂ w (hprev.trans hp)
    refine ⟨_, _, ?_, hstart.trans hpoll, ?_, hcontroller, hcounter'⟩
    · change fetchVariables.length + 1 + 1 + 1 + k + 1 ≤ fetchVariables.length + 13
      omega
    · refine h.handOff hallows henv hcontroller ?_ hvars fun w' hw' => ?_
      · rw [place_workers, (h.controller hp hne0).1]
      · rw [place_workers_of_ne hw', hworkers]
        exact h.waits w' fun _ => by rw [hp]; rintro ⟨⟩
  · have ho : o ≠ w := by
      rintro rfl
      exact hw hne0 hp
    obtain ⟨hoCounter, hoWaiting, hoConstant⟩ := h.holder o hp hne0
    have hrestore := runs_restore b s₂ w ho (hprev.trans hp)
    refine ⟨_, _, ?_, hstart.trans hrestore, ?_, hcontroller, hcounter'⟩
    · change fetchVariables.length + 1 + 1 + 1 + k + 4 ≤ fetchVariables.length + 13
      omega
    · refine h.handOff hallows henv hcontroller ?_
        (v := Function.update v' "__counter" (.num (s₂.workers o).counter))
        (fun x hx => ?_) fun w' hw' => ?_
      · rw [place_workers, hworkers, hoCounter]
      · rw [Function.update_of_ne (by rintro rfl; revert hx; decide), hvars x hx]
      · rw [place_workers_of_ne hw']
        by_cases heq : w' = o
        · subst heq
          rw [System.writeCounter, setWorker_workers, hworkers]
          dsimp only
          rw [hoWaiting, hwait]
          exact ⟨le_rfl, by rintro ⟨⟩, fun x hx => hoConstant x (List.mem_of_mem_take hx)⟩
        · have hkeep : (s₂.writeCounter nextTick (.worker o)).workers w' = s.workers w' := by
            rw [System.writeCounter, System.setWorker, hworkers]
            exact Function.update_of_ne heq ..
          rw [hkeep]
          exact h.waits w' fun _ => by rw [hp]; exact fun hwo => heq (by cases hwo; rfl)

end

end Mlogv32.Workers
