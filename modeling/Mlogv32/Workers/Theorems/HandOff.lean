import Mlogv32.Workers.Lemmas.HandOff

/-!
# Hand-offs between workers

A run of the system, in which the workers and the controller take turns in any order, is a run of
one thread.
-/

namespace Mlogv32.Workers
open Mlog

variable {W Obj Env : Type} [DecidableEq W] [DecidableEq Obj] {b : Body W Obj Env} {s : System W Obj Env}
  {t : Thread W Obj Env}

/-! ## Activations -/

theorem Shows.activate_nextTick {w : W} (h : Shows b s t) (hw : t.counter ≠ 0 → s.prevProc ≠ .worker w)
    (hcounter : (s.workers w).counter = nextTick) {n : Nat} (hn : prologue.length ≤ n) :
    Follows b t (s.activateEvents b w n) (s.activate b w n) := by
  by_cases hstate : t.vars "state" = .str "running"
  · obtain ⟨k, s', hk, hruns, hshows, hprev, hne⟩ := h.takeOver hw hcounter hstate
    obtain ⟨hactivate, hevents⟩ := hruns.activate (n - k)
    rw [Nat.add_sub_cancel' (hk.trans hn)] at hactivate hevents
    rw [hactivate, hevents]
    have hwaiting : t.waiting = false := h.waiting_eq_false (by simp [hstate])
    exact .cons ⟨h.counter_ne (by simp [hstate]), hwaiting, hstate⟩
      (hshows.activate_holder (n - k) hprev fun h0 => absurd h0 hne)
  · obtain ⟨v, hruns, hshows⟩ := h.jumpReset hw hcounter hstate
    obtain ⟨hactivate, hevents⟩ := hruns.activate (n - (fetchVariables.length + 2))
    have hle : fetchVariables.length + 2 ≤ n := le_trans (by decide) hn
    rw [Nat.add_sub_cancel' hle] at hactivate hevents
    obtain ⟨⟨hshows', hnil⟩, -⟩ := hshows.activate_waiting (n - (fetchVariables.length + 2)) hw
      (by rw [place_workers]; exact Nat.pos_of_ne_zero (by decide)) (by rw [place_workers])
    rw [hactivate, hevents, hnil]
    exact ⟨t, rfl, hshows'⟩

theorem Shows.runs_wait {w : W} (h : Shows b s t) (hw : t.counter ≠ 0 → s.prevProc ≠ .worker w)
    (hwaiting : (s.workers w).waiting = true) :
    ∃ s', Runs b w 1 s s' [] ∧ Shows b s' t ∧ (s'.workers w).counter = nextTick ∧
    s'.prevProc = s.prevProc := by
  have hx := h.waits w hw
  have hnext := hx.waiting hwaiting
  have hst : program[(s.workers w).counter]? = some .wait := by
    rw [show (s.workers w).counter = nextTick - 1 by omega]
    rfl
  have hloaded : Waits b { counter := nextTick, waiting := false, vars := (s.workers w).vars } := by
    refine ⟨le_rfl, by rintro ⟨⟩, fun y hy => hx.constant y ?_⟩
    have hall : constants.take (nextTick - 1) = constants.take (nextTick - 1 - 1) := by decide
    rw [show (s.workers w).counter = nextTick - 1 by omega, ← hall]
    exact hy
  refine ⟨s.setWorker w { counter := nextTick, waiting := false, vars := (s.workers w).vars }, ?_,
    h.setWaiting hw hloaded fun _ _ _ => rfl, by rw [setWorker_workers], rfl⟩
  have hruns := Runs.stmt (b := b) hst fun _ => hwaiting
  rw [if_neg (by decide), System.stepStmt, if_pos hwaiting, System.next,
    setWorker_workers, setWorker_setWorker, hnext] at hruns
  exact hruns

theorem Shows.activate {w : W} (h : Shows b s t) {n : Nat} (hn : prologue.length < n) :
    Follows b t (s.activateEvents b w n) (s.activate b w n) := by
  by_cases hw : s.prevProc = .worker w ∧ t.counter ≠ 0
  · exact h.activate_holder n hw.1 fun h0 => absurd h0 hw.2
  · have hw' : t.counter ≠ 0 → s.prevProc ≠ .worker w := fun h0 hp => hw ⟨hp, h0⟩
    have hx := h.waits w hw'
    rcases hx.counter.lt_or_eq with hlt | heq
    · cases hwaiting : (s.workers w).waiting with
      | false =>
          obtain ⟨⟨hshows, hevents⟩, -⟩ := h.activate_waiting n hw' hlt hwaiting
          rw [hevents]
          exact ⟨t, rfl, hshows⟩
      | true =>
          obtain ⟨s', hruns, hshows, hcounter, hprev⟩ := h.runs_wait hw' hwaiting
          obtain ⟨hactivate, hevents⟩ := hruns.activate (n - 1)
          rw [Nat.add_sub_cancel' (by omega)] at hactivate hevents
          rw [hactivate, hevents]
          exact hshows.activate_nextTick (by rwa [hprev]) hcounter (Nat.le_sub_one_of_lt hn)
    · exact h.activate_nextTick hw' heq hn.le

/-! ## The controller -/

section

omit [DecidableEq W] [DecidableEq Obj]

theorem written_of_not_mem {names : List String} {x : String} (h : x ∉ names) (new old : Vars W Obj) :
    written names new old x = old x := if_neg h

theorem Shows.state (h : Shows b s t) :
    s.vars s.prevProc "state" = t.vars "state" := h.vars _ (by decide)

theorem Shows.fetch (h : Shows b s t) :
    Shows b s.fetch t ∧ ∀ x ∈ fetchVariables, s.fetch.controller x = t.vars x := by
  have hknows : ∀ x ∈ fetchVariables, s.fetch.controller x = t.vars x :=
    fun x hx => (if_pos hx).trans (h.vars x hx)
  have hprev : s.fetch.prevProc = s.prevProc := by
    change (if "prev_proc" ∈ fetchVariables then s.vars s.prevProc "prev_proc"
      else s.controller "prev_proc") = _
    rw [if_neg (by decide)]
    rfl
  refine ⟨⟨h.env, by rw [hprev]; exact h.prevProc, fun x hx => ?_, h.constant,
    h.counter, h.stopped, h.waiting,
    by
      rw [hprev]; exact h.controller, by
        rw [hprev]; exact h.holder, by rw [hprev]; exact h.waits, h.inv⟩, hknows⟩
  rw [hprev]
  rcases h.prevProc with hp | ⟨o, hp⟩
  · rw [hp]
    exact hknows x hx
  · rw [← h.vars x hx, hp]
    rfl

/-- All workers wait, if the one that holds the hart does. -/
theorem Shows.waits_all (h : Shows b s t) {workers : W → Worker W Obj}
    (hothers : ∀ w, s.prevProc ≠ .worker w → workers w = s.workers w)
    (hholder : ∀ o, s.prevProc = .worker o → Waits b (workers o)) (w : W) : Waits b (workers w) := by
  by_cases hw : s.prevProc = .worker w
  · exact hholder w hw
  · rw [hothers w hw]
    exact h.waits w fun _ => hw

/-- A write to the worker that holds the hart leaves the others as they are. -/
theorem Shows.waits_others (h : Shows b s t) {o : W} (hp : s.prevProc = .worker o) {w : W} (hw : w ≠ o) :
    Waits b (s.workers w) := by
  refine h.waits w fun _ hp' => hw ?_
  cases hp.symm.trans hp'
  rfl

end

theorem Shows.tick (h : Shows b s t) {f : Vars W Obj → Env → Vars W Obj} (hallows : s.Allows (.tick f)) :
    Follows b t (s.events b (.tick f)) (s.apply b (.tick f)) := by
  have hstate : t.vars "state" = .str "running" ∨ t.vars "state" = .str "pause" := by
    rw [← h.state]
    exact hallows
  have hne : t.counter ≠ 0 := h.counter_ne (by rcases hstate with hst | hst <;> simp [hst])
  rw [System.events, System.apply, if_pos hallows, if_pos hallows]
  have hnext : t.Allows (.tick f) := ⟨hne, hstate⟩
  have hinv := b.inv t (.tick f) h.inv hnext (by rintro _ _ ⟨⟩)
  refine .cons hnext ⟨_, rfl, ?_⟩
  dsimp only
  obtain ⟨h, hknows⟩ := h.fetch
  generalize s.fetch = u at *
  have hfetched : fetched u.controller = fetched t.vars := by
    funext x
    unfold fetched
    split
    · exact hknows x ‹_›
    · rfl
  rw [hfetched, h.env]
  have hfree : ∀ x ∈ constants, x ∉ tickVariables := by decide
  have hconstant : ∀ x ∈ constants, (t.apply b (.tick f)).vars x = b.constant x := fun x hx =>
    (if_neg (hfree x hx)).trans (h.constant x hx)
  have hwritten {v : Vars W Obj} {x : String} (hv : v x = t.vars x) :
      written tickVariables (f (fetched t.vars) t.env) v x = (t.apply b (.tick f)).vars x := by
    change written _ _ v x = written _ _ t.vars x
    unfold written
    rw [hv]
  have hstate' : (t.apply b (.tick f)).vars "state" = t.vars "state" := by
    change written tickVariables (f (fetched t.vars) t.env) t.vars "state" = _
    exact written_of_not_mem (by decide) _ _
  rcases h.prevProc with hp | ⟨o, hp⟩
  · obtain ⟨hpoll, hwaiting, hrunning⟩ := h.controller hp hne
    rw [hp]
    refine .control h.env ?_ (.inr ⟨hpoll, hstate'.trans hrunning⟩) (fun x hx =>
      hwritten (hknows x hx)) hconstant hwaiting
      (h.waits_all (fun _ _ => rfl) fun o ho => absurd (hp.symm.trans ho) (by rintro ⟨⟩)) hinv
    change written tickVariables (f (fetched t.vars) t.env) u.controller "prev_proc" = .controller
    exact (written_of_not_mem (by decide) _ _).trans hp
  · obtain ⟨hcounter, hwaiting, -⟩ := h.holder o hp hne
    rw [hp]
    refine .hold (w := o) h.env hp (h.counter.resolve_left hne) ?_
      (fun x hx => ?_) hconstant ?_ (fun w' hw' => ?_) hinv
    · rw [System.writeAll, setWorker_workers]
      exact ⟨hcounter, hwaiting⟩
    · rw [System.writeAll, setWorker_workers]
      exact hwritten (h.agrees hp hne x hx)
    · exact fun hw => hstate'.trans (h.waiting hw)
    · have hkeep : (u.writeAll tickVariables (f (fetched t.vars) t.env) (.worker o)).workers w' =
          u.workers w' :=
        Function.update_of_ne hw' ..
      rw [hkeep]
      exact h.waits_others hp hw'

theorem Shows.resume (h : Shows b s t) (hallows : s.Allows .resume) :
    Follows b t (s.events b .resume) (s.apply b .resume) := by
  have hstate : t.vars "state" = .str "breakpoint" ∨ t.vars "state" = .str "trap_breakpoint" := by
    rw [← h.state]
    exact hallows
  have hne : t.counter ≠ 0 := h.counter_ne (by rcases hstate with hst | hst <;> simp [hst])
  have hwaiting : t.waiting = false :=
    h.waiting_eq_false (by rcases hstate with hst | hst <;> simp [hst])
  rw [System.events, System.apply, if_pos hallows, if_pos hallows]
  have hnext : t.Allows .resume := ⟨hne, hstate⟩
  have hinv := b.inv t .resume h.inv hnext (by rintro _ _ ⟨⟩)
  refine .cons hnext ⟨_, rfl, ?_⟩
  dsimp only
  obtain ⟨h, -⟩ := h.fetch
  generalize s.fetch = u at *
  rcases h.prevProc with hp | ⟨o, hp⟩
  · have hrunning := (h.controller hp hne).2.2
    exact absurd hstate (by simp [hrunning])
  · obtain ⟨hcounter, hwaiting', -⟩ := h.holder o hp hne
    generalize hu₁ : u.writeCounter (u.counter u.prevProc + 1) u.prevProc = u₁
    rw [hp, System.counter, hcounter] at hu₁
    generalize hu₂ : u₁.write "state" (.str "running") .controller = u₂
    have hprev : u₂.prevProc = .worker o := by
      rw [← hu₂, ← hu₁]
      change Function.update u.controller "state" (.str "running") "prev_proc" = .worker o
      rw [Function.update_of_ne (by decide)]
      exact hp
    have hworkers : u₂.workers = u₁.workers := by rw [← hu₂]; rfl
    have hholder : u₁.workers o =
        { counter := t.counter + 1, waiting := false, vars := (u.workers o).vars } := by
      rw [← hu₁, System.writeCounter, setWorker_workers]
      dsimp only
      rw [hwaiting', hwaiting]
    have hself : (u₂.write "state" (.str "running") (.worker o)).workers o =
        { counter := t.counter + 1, waiting := false,
          vars := Function.update (u.workers o).vars "state" (.str "running") } := by
      rw [System.write, setWorker_workers, hworkers, hholder]
    have henv : (u₂.write "state" (.str "running") (.worker o)).env = t.env := by
      rw [← h.env, ← hu₂, ← hu₁]
      rfl
    rw [hprev]
    refine .hold henv hprev (le_trans (h.counter.resolve_left hne) t.counter.le_succ) ?_
      (fun x hx => ?_) (fun x hx => ?_)
      (fun hw => absurd (hwaiting.symm.trans hw) (by decide)) (fun w' hw' => ?_) hinv
    · rw [hself]
      exact ⟨rfl, hwaiting.symm⟩
    · rw [hself]
      exact update_congr (h.agrees hp hne x hx)
    · refine (Function.update_of_ne ?_ ..).trans (h.constant x hx)
      rintro rfl
      exact constants_ne_fetchVariables _ hx (by decide)
    · have hkeep : (u₂.write "state" (.str "running") (.worker o)).workers w' = u.workers w' := by
        rw [System.write, System.setWorker, hworkers, ← hu₁]
        exact (Function.update_of_ne hw' ..).trans (Function.update_of_ne hw' ..)
      rw [hkeep]
      exact h.waits_others hp hw'

omit [DecidableEq Obj] in
/-- The controller takes the hart back, and stops. -/
theorem Shows.stop {u : System W Obj Env} (h : Shows b u t)
    (hknows : ∀ x ∈ fetchVariables, u.controller x = t.vars x) (hwaiting : t.waiting = false)
    {u' : System W Obj Env} (henv : u'.env = u.env) (hcontroller : u'.controller = u.controller)
    (hothers : ∀ w, Waits b (u'.workers w)) :
    Shows b ((u'.write "prev_proc" .controller .controller).write "state" (.str "halt") .controller)
      (t.apply b .halt) := by
  have hstate : (t.apply b .halt).vars "state" = .str "halt" := by
    change Function.update t.vars "state" (.str "halt") "state" = _
    rw [Function.update_self]
  refine .control (henv.trans h.env) ?_ (.inl ⟨rfl, hstate⟩) (fun x hx => ?_)
    (fun x hx => ?_) hwaiting hothers
    (absurd rfl)
  · change Function.update (Function.update u'.controller "prev_proc" .controller) "state"
      (.str "halt") "prev_proc" = _
    rw [Function.update_of_ne (by decide), Function.update_self]
  · change Function.update (Function.update u'.controller "prev_proc" .controller)
      "state" (.str "halt") x = _
    refine update_congr ?_
    rw [Function.update_of_ne (by rintro rfl; revert hx; decide), hcontroller, hknows x hx]
  · refine (Function.update_of_ne ?_ ..).trans (h.constant x hx)
    rintro rfl
    exact constants_ne_fetchVariables _ hx (by decide)

theorem Shows.halt (h : Shows b s t) (hallows : s.Allows .halt) :
    Follows b t (s.events b .halt) (s.apply b .halt) := by
  rw [System.events, System.apply, if_pos hallows, if_pos hallows]
  obtain ⟨hstate, hreset⟩ := hallows
  rw [h.state] at hstate
  have hzero : t.counter = 0 := by
    by_contra hne
    rcases h.prevProc with hp | ⟨o, hp⟩
    · have hrunning := (h.controller hp hne).2.2
      exact absurd hstate (by simp [hrunning])
    · rw [hp, System.counter, (h.holder o hp hne).1] at hreset
      exact absurd (h.counter.resolve_left hne) hreset.not_ge
  have hwaiting : t.waiting = false :=
    h.waiting_eq_false (by rcases hstate with hst | hst <;> simp [hst])
  refine .cons hwaiting ⟨_, rfl, ?_⟩
  obtain ⟨h, hknows⟩ := h.fetch
  exact h.stop hknows hwaiting rfl rfl fun w => h.waits w fun hne => absurd hzero hne

theorem Shows.powerOff (h : Shows b s t) (hallows : s.Allows .powerOff) :
    Follows b t (s.events b .powerOff) (s.apply b .powerOff) := by
  rw [System.events, System.apply, if_pos hallows, if_pos hallows]
  obtain ⟨hhalt, hreset, hwaits⟩ := hallows
  rw [h.state] at hhalt hreset
  have hne : t.counter ≠ 0 := h.counter_ne ⟨hhalt, hreset⟩
  have hwaiting : t.waiting = false := by
    rcases h.prevProc with hp | ⟨o, hp⟩
    · exact (h.controller hp hne).2.1
    · rw [hp] at hwaits
      rw [← (h.holder o hp hne).2.1]
      exact hwaits
  refine .cons hwaiting ⟨_, rfl, ?_⟩
  dsimp only
  obtain ⟨h, hknows⟩ := h.fetch
  generalize s.fetch = u at *
  rcases h.prevProc with hp | ⟨o, hp⟩
  · rw [hp]
    exact h.stop hknows hwaiting rfl rfl
      (h.waits_all (fun _ _ => rfl) fun o ho => absurd (hp.symm.trans ho) (by rintro ⟨⟩))
  · rw [hp]
    refine h.stop hknows hwaiting rfl rfl (h.waits_all (fun w hw => ?_) fun o' ho' => ?_)
    · exact Function.update_of_ne (fun heq : w = o => hw (heq ▸ hp)) ..
    · cases hp.symm.trans ho'
      rw [System.writeCounter, setWorker_workers]
      dsimp only
      rw [(h.holder o hp hne).2.1, hwaiting]
      exact .reset b _

theorem Shows.start (h : Shows b s t) {v : Vars W Obj} {env : Env} (hallows : s.Allows (.start v env))
    (hstarts : b.Starts v env) :
    Follows b t (s.events b (.start v env)) (s.apply b (.start v env)) := by
  rw [System.events, System.apply, if_pos hallows, if_pos hallows]
  obtain ⟨hprev, hhalt⟩ := hallows
  have hstate := h.state
  rw [hprev] at hstate
  have hhalted : t.vars "state" = .str "halt" := hstate.symm.trans hhalt
  have hzero : t.counter = 0 := by
    by_contra hne
    exact absurd hhalted (by simp [(h.controller hprev hne).2.2])
  have hstarted (old : Vars W Obj) : started v old "state" = .str "running" := by
    rw [started, Function.update_self]
  have hfree : ∀ x ∈ constants, x ≠ "state" := by decide
  have hnext : t.Allows (.start v env) := ⟨hzero, hhalted⟩
  have hinv := b.inv t (.start v env) h.inv hnext fun _ _ he => by
    cases he
    exact hstarts
  refine .cons hnext ⟨_, rfl, .control rfl ?_ (.inr ⟨rfl, hstarted t.vars⟩)
    (fun x hx => ?_) (fun x hx => ?_) rfl
    (fun w => h.waits w fun hne => absurd hzero hne) hinv⟩
  · change started v s.controller "prev_proc" = .controller
    rw [started, Function.update_of_ne (by decide), written_of_not_mem (by decide)]
    exact hprev
  · exact update_congr ((if_pos hx).trans (if_pos hx).symm)
  · change started v t.vars x = b.constant x
    rw [started, Function.update_of_ne (hfree x hx),
      written_of_not_mem (constants_ne_fetchVariables x hx), h.constant x hx]

/-! ## Runs -/

/-- One event, which is nothing where the controller does not allow it. -/
theorem Shows.apply (h : Shows b s t) {e : Event W Obj Env}
    (hbudget : ∀ w n, e = .activate w n → prologue.length < n)
    (hstarts : ∀ v env, e = .start v env → b.Starts v env) :
    Follows b t (s.events b e) (s.apply b e) := by
  by_cases hallows : s.Allows e
  · cases e with
    | activate w n =>
        exact h.activate (hbudget w n rfl)
    | tick f => exact h.tick hallows
    | resume => exact h.resume hallows
    | halt => exact h.halt hallows
    | powerOff => exact h.powerOff hallows
    | start v env => exact h.start hallows (hstarts v env rfl)
  · unfold System.events System.apply
    rw [if_neg hallows, if_neg hallows]
    exact ⟨t, rfl, h⟩

theorem Shows.run {es : List (Event W Obj Env)} :
    ∀ {s : System W Obj Env} {t : Thread W Obj Env}, Shows b s t →
    (∀ w n, .activate w n ∈ es → prologue.length < n) → (∀ v env, .start v env ∈ es → b.Starts v env) →
      Follows b t (s.trace b es) (es.foldl (System.apply b) s) := by
  induction es with
  | nil => exact fun h _ _ => ⟨_, rfl, h⟩
  | cons e es ih =>
      intro s t h hbudget hstarts
      obtain ⟨u, hrun, hshows⟩ := h.apply (fun w n he => hbudget w n (he ▸ List.mem_cons_self))
        fun v env he => hstarts v env (he ▸ List.mem_cons_self)
      exact .append hrun (ih hshows (fun w n hmem => hbudget w n (List.mem_cons_of_mem _ hmem))
        fun v env hmem => hstarts v env (List.mem_cons_of_mem _ hmem))

/-- The thread of a system that has not been started. -/
def Thread.initial (b : Code W Obj Env) (s : System W Obj Env) : Thread W Obj Env where
  counter := 0
  waiting := false
  vars x := if x ∈ constants then b.constant x else s.controller x
  env := s.env

omit [DecidableEq W] [DecidableEq Obj] in
theorem Shows.initial (b : Body W Obj Env)
    (hworkers : ∀ w, (s.workers w).counter = 0 ∧ (s.workers w).waiting = false)
    (hprev : s.prevProc = .controller) (hstate : s.controller "state" = .str "halt") :
    Shows b s (.initial b s) := by
  have hfree : ∀ x ∈ fetchVariables, x ∉ constants := by decide
  have hhalted : (Thread.initial b s).vars "state" = .str "halt" := by
    change (if "state" ∈ constants then b.constant "state" else s.controller "state") = _
    rw [if_neg (hfree "state" (by decide)), hstate]
  refine .control rfl hprev (.inl ⟨rfl, hhalted⟩) (fun x hx => (if_neg (hfree x hx)).symm)
    (fun x hx => if_pos hx) rfl (fun w => ⟨?_, fun heq => ?_, ?_⟩) (absurd rfl)
  · exact (hworkers w).1.trans_le (Nat.zero_le _)
  · exact absurd ((hworkers w).2.symm.trans heq) (by decide)
  · rw [(hworkers w).1]
    rintro y ⟨⟩

/-- Any number of workers, activated in any order with any budgets that cover the prologue, run one
hart. What they execute from `poll_interrupts` on, with the events of the controller, is a run of a
single thread. The last worker has the variables of the thread, and no other worker is behind its
prologue. -/
theorem handOff_transparent (b : Body W Obj Env) (s : System W Obj Env)
    (hworkers : ∀ w, (s.workers w).counter = 0 ∧ (s.workers w).waiting = false)
    (hprev : s.prevProc = .controller) (hstate : s.controller "state" = .str "halt")
    (es : List (Event W Obj Env)) (hbudget : ∀ w n, .activate w n ∈ es → prologue.length < n)
    (hstarts : ∀ v env, .start v env ∈ es → b.Starts v env) :
    ∃ t, (Thread.initial b s).run b (s.trace b es) = some t ∧
      (es.foldl (System.apply b) s).env = t.env ∧
      (∀ x ∈ fetchVariables, (es.foldl (System.apply b) s).vars
        (es.foldl (System.apply b) s).prevProc x = t.vars x) ∧
      ∀ w, nextTick < ((es.foldl (System.apply b) s).workers w).counter ↔
        t.counter ≠ 0 ∧ (es.foldl (System.apply b) s).prevProc = .worker w ∧
          ((es.foldl (System.apply b) s).workers w).counter = t.counter ∧
          ((es.foldl (System.apply b) s).workers w).waiting = t.waiting := by
  obtain ⟨t, hrun, h⟩ := (Shows.initial b hworkers hprev hstate).run hbudget hstarts
  refine ⟨t, hrun, h.env, h.vars, fun w => ⟨fun hlt => ?_, ?_⟩⟩
  · by_cases hw : t.counter ≠ 0 ∧ (es.foldl (System.apply b) s).prevProc = .worker w
    · obtain ⟨hcounter, hwaiting, -⟩ := h.holder w hw.2 hw.1
      exact ⟨hw.1, hw.2, hcounter, hwaiting⟩
    · exact absurd (h.waits w fun hne hp => hw ⟨hne, hp⟩).counter hlt.not_ge
  · rintro ⟨hne, -, hcounter, -⟩
    rw [hcounter]
    exact lt_of_lt_of_le (by decide) (h.counter.resolve_left hne)

/-- The outcome of a statement that does not wait. -/
def goTo (counter : Nat) (vars : Vars Bool Unit) (env : Nat) : Outcome Bool Unit Nat :=
  { counter := pollInterrupts + counter, waiting := false, yields := false,
    vars := vars, env := env + 1 }

/-- A loop that pauses where pc is 40 and halts where it is 80: `op add pc pc 4`, `jump halt equal
pc 80`, `jump loop notEqual pc 40`, `set ret %loop%`, `set state "pause"`, `wait 1e-5`, `set state
"running"` and `set @counter ret`; then `halt:`, `set state "halt"` and `jump reset always`. `Env`
counts the statements. -/
def pausingStmt (waiting : Bool) (v : Vars Bool Unit) (env : Nat) : Nat → Outcome Bool Unit Nat
  | 0 => goTo 1 (Function.update v "pc" (.num ((v "pc").toNum + 4))) env
  | 1 => goTo (if v "pc" = .num 80 then 8 else 2) v env
  | 2 => goTo (if v "pc" = .num 40 then 3 else 0) v env
  | 3 => goTo 4 (Function.update v "ret" (.num pollInterrupts)) env
  | 4 => goTo 5 (Function.update v "state" (.str "pause")) env
  | 5 => if waiting then goTo 6 v env else { goTo 5 v env with waiting := true, yields := true }
  | 6 => goTo 7 (Function.update v "state" (.str "running")) env
  | 7 => { goTo 0 v env with counter := (v "ret").toNum.toNat }
  | 8 => goTo 9 (Function.update v "state" (.str "halt")) env
  | _ => { goTo 0 v env with counter := 0 }

def pausingCode : Code Bool Unit Nat where
  exec c waiting v env := pausingStmt waiting v env (c - pollInterrupts)
  readMcycleh _ := .num 0
  writeMcycleh env _ := env
  config _ := .num 0

/-- `state` before a statement of the loop. -/
def pausingState (k : Nat) : String :=
  if k = 5 ∨ k = 6 then "pause" else if k = 9 then "halt" else "running"

/-- The hart is in the loop. It waits in `pause_one_tick` only, and returns from there. -/
def Pausing (t : Thread Bool Unit Nat) : Prop :=
  ∃ k < 10, t.counter = pollInterrupts + k ∧ (4 ≤ k → k < 8 → t.vars "ret" = .num pollInterrupts) ∧
    t.vars "state" = .str (pausingState k) ∧ (t.waiting = true → k = 5)

theorem Pausing.of_lt {k : Nat} (hk : k < 10) {waiting : Bool} {v : Vars Bool Unit} {env : Nat}
    (hret : 4 ≤ k → k < 8 → v "ret" = .num pollInterrupts) (hstate : v "state" = .str (pausingState k))
    (hwaiting : waiting = true → k = 5) : Pausing ⟨pollInterrupts + k, waiting, v, env⟩ :=
  ⟨k, hk, rfl, hret, hstate, hwaiting⟩

theorem Pausing.of_eq {t t' : Thread Bool Unit Nat} (h : Pausing t)
    (hcounter : t'.counter = t.counter) (hwaiting : t'.waiting = t.waiting)
    (hvars : ∀ x ∈ ["ret", "state"], t'.vars x = t.vars x) : Pausing t' := by
  obtain ⟨k, hk, hc, hret, hstate, hw⟩ := h
  refine ⟨k, hk, hcounter.trans hc, fun h4 h8 => ?_, ?_, fun h => hw (hwaiting ▸ h)⟩
  · rw [hvars "ret" (by decide), hret h4 h8]
  · rw [hvars "state" (by decide), hstate]

theorem Pausing.range {t : Thread Bool Unit Nat} (h : Pausing t) : pollInterrupts ≤ t.counter := by
  obtain ⟨k, -, hc, -⟩ := h
  omega

/-- A statement stays in the loop, or stops the hart. -/
theorem Pausing.step {t : Thread Bool Unit Nat} (h : Pausing t) :
    Pausing (t.apply pausingCode (.step t.counter)) ∨
      (t.apply pausingCode (.step t.counter)).counter = 0 ∧
      (t.apply pausingCode (.step t.counter)).waiting = false ∧
        (t.apply pausingCode (.step t.counter)).vars "state" = .str "halt" := by
  obtain ⟨c, waiting, v, env⟩ := t
  obtain ⟨k, hk, hc, hret, hstate, hw⟩ := h
  dsimp only at hc hret hstate hw
  subst hc
  have hpc : ("state" : String) ≠ "pc" := by decide
  have hne : ("state" : String) ≠ "ret" := by decide
  have hne' : ("ret" : String) ≠ "state" := by decide
  unfold Thread.apply pausingCode
  dsimp only
  rw [Nat.add_sub_cancel_left]
  interval_cases k <;> simp only [pausingStmt, goTo]
  · exact .inl (.of_lt (k := 1) (by decide) (by omega) ((Function.update_of_ne hpc ..).trans hstate)
      (by rintro ⟨⟩))
  · split
    · exact .inl (.of_lt (by decide) (by omega) hstate (by rintro ⟨⟩))
    · exact .inl (.of_lt (by decide) (by omega) hstate (by rintro ⟨⟩))
  · split
    · exact .inl (.of_lt (by decide) (by omega) hstate (by rintro ⟨⟩))
    · exact .inl (.of_lt (by decide) (by omega) hstate (by rintro ⟨⟩))
  · exact .inl (.of_lt (by decide) (fun _ _ => Function.update_self ..)
      ((Function.update_of_ne hne ..).trans hstate)
      (by rintro ⟨⟩))
  · exact .inl (.of_lt (by decide) (fun _ _ =>
      (Function.update_of_ne hne' ..).trans (hret (by decide) (by decide)))
      (Function.update_self ..) (by rintro ⟨⟩))
  · split
    · exact .inl (.of_lt (by decide) (fun _ _ => hret (by decide) (by decide)) hstate (by rintro ⟨⟩))
    · exact .inl (.of_lt (by decide) (fun _ _ => hret (by decide) (by decide)) hstate fun _ => rfl)
  · exact .inl (.of_lt (by decide) (fun _ _ =>
      (Function.update_of_ne hne' ..).trans (hret (by decide) (by decide)))
      (Function.update_self ..) (by rintro ⟨⟩))
  · rw [hret (by decide) (by decide)]
    exact .inl (.of_lt (k := 0) (by decide) (by omega) hstate (by rintro ⟨⟩))
  · exact .inl (.of_lt (by decide) (by omega) (Function.update_self ..) (by rintro ⟨⟩))
  · exact .inr ⟨trivial, trivial, hstate⟩

def pausingBody : Body Bool Unit Nat where
  toCode := pausingCode
  frame c waiting v env x hx := by
    have hpc : x ≠ "pc" := by
      rintro rfl
      exact hx (by decide)
    have hret : x ≠ "ret" := by
      rintro rfl
      exact hx (by decide)
    have hstate : x ≠ "state" := by
      rintro rfl
      exact hx (by decide)
    change (pausingStmt waiting v env (c - pollInterrupts)).vars x = v x
    unfold pausingStmt goTo
    split <;> simp [hpc, hret, hstate, apply_ite Outcome.vars]
  congr c waiting v v' env h := by
    have hfetched : ∀ x ∈ fetchVariables, v' x = v x := fun x hx => h x (List.mem_append_left _ hx)
    unfold pausingCode pausingStmt goTo
    dsimp only
    rw [hfetched "pc" (by decide), hfetched "ret" (by decide)]
    split
    all_goals first
      | exact ⟨⟨rfl, rfl, rfl, rfl⟩, hfetched⟩
      | exact ⟨⟨rfl, rfl, rfl, rfl⟩, fun x hx => update_congr (hfetched x hx)⟩
      | split <;> exact ⟨⟨rfl, rfl, rfl, rfl⟩, hfetched⟩
  Inv := Pausing
  Starts _ _ := True
  inv t e h hallows _ hne := by
    cases e with
    | step counter =>
        obtain ⟨rfl, hpoll⟩ := hallows
        have hcounter : t.counter ≠ 0 := fun h0 => absurd (hpoll.trans_eq h0) (by decide)
        exact (h hcounter).step.resolve_right fun hstop => hne hstop.1
    | handOff =>
        exact (h hallows.1).of_eq (incrementMcycle_counter _ t).1 (incrementMcycle_counter _ t).2
          fun x hx => incrementMcycle_of_ne _ t (by revert x; decide)
    | tick f =>
        exact (h hallows.1).of_eq rfl rfl fun x hx => written_of_not_mem (by revert x; decide) _ _
    | resume =>
        -- The loop has no breakpoint.
        obtain ⟨k, hk, -, -, hstate, -⟩ := h hallows.1
        have hnone : ∀ k < 10, ¬(pausingState k = "breakpoint" ∨
          pausingState k = "trap_breakpoint") := by decide
        have hbreakpoint := hallows.2
        simp only [hstate, Val.str.injEq] at hbreakpoint
        exact absurd hbreakpoint (hnone k hk)
    | halt => exact absurd rfl hne
    | start v env =>
        have hrunning : started v t.vars "state" = .str "running" := Function.update_self ..
        exact ⟨0, by decide, rfl, by omega, hrunning, by rintro ⟨⟩⟩
  counter t h _ := h.step.imp Pausing.range fun ⟨hcounter, hwaiting, hstate⟩ =>
    ⟨hcounter, hwaiting, by rw [hstate]; exact List.mem_cons_self⟩
  waiting t h _ hw := by
    rcases h.step with h | ⟨-, hwaiting, -⟩
    · obtain ⟨k, -, -, -, hstate, hpause⟩ := h
      rw [hstate, hpause hw]
      rfl
    · exact absurd (hwaiting.symm.trans hw) (by decide)

def haltedSystem : System Bool Unit Nat where
  workers _ := { counter := 0, waiting := false, vars := fun _ => .null }
  controller :=
    Function.update (Function.update (fun _ => .null) "prev_proc" .controller) "state" (.str "halt")
  env := 0

/-- Two workers leave `reset`, the hart is started, and each of them takes it over. -/
def takeOvers : List (Event Bool Unit Nat) :=
  [.activate true 100, .activate false 100, .start (fun _ => .num 0) 0,
    .activate true 66, .activate false 70]

/-- The first worker takes the hart back, and pauses. The second one finds it paused and goes back
to `reset`. In the next tick the first one goes on, and asks for a halt. -/
def turns : List (Event Bool Unit Nat) :=
  takeOvers ++ [.activate true 100, .tick fun v _ => v, .activate false 100, .activate true 100, .halt]

theorem turns_budgets : ∀ w n, .activate w n ∈ turns → prologue.length < n := by
  have hlen : prologue.length < 66 := by decide
  intro w n hmem
  simp only [turns, takeOvers, List.cons_append, List.nil_append, List.mem_cons,
    Event.activate.injEq, reduceCtorEq, List.not_mem_nil, or_false, false_or] at hmem
  omega


theorem handOff_transparent_turns :
    ∃ t, (Thread.initial pausingBody haltedSystem).run pausingBody
      (haltedSystem.trace pausingBody turns) = some t ∧
      (turns.foldl (System.apply pausingBody) haltedSystem).env = t.env ∧
      (∀ x ∈ fetchVariables,
        (turns.foldl (System.apply pausingBody) haltedSystem).vars
          (turns.foldl (System.apply pausingBody) haltedSystem).prevProc x = t.vars x) ∧
      ∀ w, nextTick < ((turns.foldl (System.apply pausingBody) haltedSystem).workers w).counter ↔
        t.counter ≠ 0 ∧ (turns.foldl (System.apply pausingBody) haltedSystem).prevProc = .worker w ∧
          ((turns.foldl (System.apply pausingBody) haltedSystem).workers w).counter = t.counter ∧
          ((turns.foldl (System.apply pausingBody) haltedSystem).workers w).waiting = t.waiting :=
  handOff_transparent pausingBody haltedSystem (fun _ => ⟨rfl, rfl⟩)
    (by simp [System.prevProc, haltedSystem])
    (by simp [haltedSystem]) turns turns_budgets fun _ _ _ => trivial

/-! ## Progress -/

/-- The worker that holds the hart executes its next statement. -/
theorem Shows.holder_progress {w : W} (h : Shows b s t) (hw : s.prevProc = .worker w)
    (hcounter : t.counter ≠ 0) {n : Nat} (hn : 0 < n) :
    .step t.counter ∈ s.activateEvents b w n := by
  obtain ⟨n, rfl⟩ := Nat.exists_eq_succ_of_ne_zero hn.ne'
  rw [System.activateEvents, (h.step hw hcounter).1.2]
  exact List.mem_cons_self

theorem Shows.nextTick_progress {w : W} (h : Shows b s t) (hw : t.counter ≠ 0 → s.prevProc ≠ .worker w)
    (hcounter : (s.workers w).counter = nextTick) (hrunning : t.vars "state" = .str "running") {n : Nat}
    (hn : prologue.length < n) : ∃ counter, .step counter ∈ s.activateEvents b w n := by
  obtain ⟨k, s', hk, hruns, hshows, hprev, hne⟩ := h.takeOver hw hcounter hrunning
  obtain ⟨-, hevents⟩ := hruns.activate (n - k)
  rw [Nat.add_sub_cancel' (hk.trans hn.le)] at hevents
  rw [hevents]
  exact ⟨_, List.mem_append_right _
    (hshows.holder_progress hprev hne (Nat.sub_pos_of_lt (hk.trans_lt hn)))⟩

/-- A worker that is not on the way to `next_tick` executes a statement of a hart that runs. -/
theorem Shows.progress {w : W} (h : Shows b s t) (hrunning : t.vars "state" = .str "running")
    {n : Nat} (hn : prologue.length + 1 < n)
    (hw : (s.workers w).counter < nextTick → (s.workers w).waiting = true) :
    ∃ counter, .step counter ∈ s.activateEvents b w n := by
  have hne : t.counter ≠ 0 := h.counter_ne (by simp [hrunning])
  by_cases hholder : s.prevProc = .worker w
  · exact ⟨_, h.holder_progress hholder hne (by omega)⟩
  · have hw' : t.counter ≠ 0 → s.prevProc ≠ .worker w := fun _ => hholder
    rcases (h.waits w hw').counter.lt_or_eq with hlt | heq
    · obtain ⟨s', hruns, hshows, hcounter, hprev⟩ := h.runs_wait hw' (hw hlt)
      obtain ⟨-, hevents⟩ := hruns.activate (n - 1)
      rw [Nat.add_sub_cancel' (by omega)] at hevents
      rw [hevents]
      exact hshows.nextTick_progress (by rwa [hprev]) hcounter hrunning (by omega)
    · exact h.nextTick_progress hw' heq hrunning (by omega)

/-- A hart that runs is never lost. Whatever has happened, two activations of any worker in a row
execute a statement of it. -/
theorem handOff_progress (b : Body W Obj Env) (s : System W Obj Env)
    (hworkers : ∀ w, (s.workers w).counter = 0 ∧ (s.workers w).waiting = false)
    (hprev : s.prevProc = .controller)
    (hstate : s.controller "state" = .str "halt") (es : List (Event W Obj Env))
    (hbudget : ∀ w n, .activate w n ∈ es → prologue.length < n)
    (hstarts : ∀ v env, .start v env ∈ es → b.Starts v env)
    (hrunning : (es.foldl (System.apply b) s).vars (es.foldl (System.apply b) s).prevProc "state" =
      .str "running")
    (w : W) {n m : Nat} (hn : prologue.length + 1 < n) (hm : prologue.length + 1 < m) :
    ∃ counter, .step counter ∈ (es.foldl (System.apply b) s).trace b [.activate w n, .activate w m] := by
  obtain ⟨t, -, h⟩ := (Shows.initial b hworkers hprev hstate).run hbudget hstarts
  generalize es.foldl (System.apply b) s = u at *
  rw [h.state] at hrunning
  have htrace : u.trace b [.activate w n, .activate w m] =
      u.activateEvents b w n ++ ((u.activate b w n).activateEvents b w m ++ []) := rfl
  rw [htrace, List.append_nil]
  by_cases hw : (u.workers w).counter < nextTick → (u.workers w).waiting = true
  · obtain ⟨counter, hmem⟩ := h.progress hrunning hn hw
    exact ⟨counter, List.mem_append_left _ hmem⟩
  · -- The first activation ends at the `wait`.
    obtain ⟨hlt, hwaiting⟩ := Classical.not_imp.mp hw
    have hne : t.counter ≠ 0 := h.counter_ne (by simp [hrunning])
    by_cases hholder : u.prevProc = .worker w
    · exact ⟨_, List.mem_append_left _ (h.holder_progress hholder hne (by omega))⟩
    · obtain ⟨⟨hshows, -⟩, hwaits⟩ :=
        h.activate_waiting n (fun _ => hholder) hlt (Bool.eq_false_of_not_eq_true hwaiting)
      have hle : nextTick ≤ prologue.length := by decide
      obtain ⟨counter, hmem⟩ := hshows.progress hrunning hm fun _ => hwaits (by omega)
      exact ⟨counter, List.mem_append_right _ hmem⟩

theorem handOff_progress_start :
    ∃ counter, .step counter ∈
      (takeOvers.foldl (System.apply pausingBody) haltedSystem).trace pausingBody
      [.activate true 100, .activate true 100] :=
  handOff_progress pausingBody haltedSystem (fun _ => ⟨rfl, rfl⟩)
    (by simp [System.prevProc, haltedSystem])
    (by simp [haltedSystem]) takeOvers (fun w n hmem => turns_budgets w n (List.mem_append_left _ hmem))
    (fun _ _ _ => trivial) (by decide +kernel) true (by decide) (by decide)

end Mlogv32.Workers
