import Mlogv32.Workers.HandOff

/-!
# The prologue of a worker

What the statements from `reset` to `poll_interrupts` do, when one worker executes them without a
break.
-/

namespace Mlogv32.Workers
open Mlog

variable {W Obj Env : Type} [DecidableEq W] {s s' u : System W Obj Env} {w : W}

/-! ## A worker in its prologue -/

@[simp] theorem setWorker_workers (x : Worker W Obj) :
    (s.setWorker w x).workers w = x := Function.update_self ..

@[simp] theorem setWorker_setWorker (x y : Worker W Obj) :
    (s.setWorker w x).setWorker w y = s.setWorker w y := by
  simp [System.setWorker]

/-- The system with worker `w` at a statement of its prologue. -/
def System.place (s : System W Obj Env) (w : W) (c : Nat) (v : Vars W Obj) : System W Obj Env :=
  s.setWorker w { counter := c, waiting := false, vars := v }

variable {c : Nat} {v : Vars W Obj}

@[simp] theorem place_workers :
    (s.place w c v).workers w = { counter := c, waiting := false, vars := v } :=
  Function.update_self ..

theorem place_workers_of_ne {w' : W} (h : w' ≠ w) :
    (s.place w c v).workers w' = s.workers w' := Function.update_of_ne h ..

@[simp] theorem place_next : (s.place w c v).next w = s.place w (c + 1) v := by
  rw [System.next, place_workers]
  exact setWorker_setWorker ..

@[simp] theorem place_assign (x : String) (value : Val W Obj) :
    (s.place w c v).assign w x value = s.place w (c + 1) (Function.update v x value) := by
  rw [System.assign, System.write, place_workers]
  exact (congrArg (System.next · w) (setWorker_setWorker ..)).trans place_next

theorem place_writeCounter_self (n : Nat) :
    (s.place w c v).writeCounter n (.worker w) = s.place w n v := by
  rw [System.writeCounter, place_workers]
  exact setWorker_setWorker ..

@[simp] theorem place_jump (target : Nat) (condition : Prop) [Decidable condition] :
    (s.place w c v).jump w target condition = s.place w (if condition then target else c + 1) v := by
  unfold System.jump
  split
  · exact place_writeCounter_self target
  · exact place_next

theorem place_vars_of_ne {p : Val W Obj} (h : p ≠ .worker w) : (s.place w c v).vars p = s.vars p := by
  cases p with
  | worker o => exact congrArg Worker.vars (place_workers_of_ne fun heq => h (congrArg Val.worker heq))
  | _ => rfl

theorem program_fetch {k : Nat} (h : k < fetchVariables.length) :
    program[nextTick + 1 + k]? = some (.fetch fetchVariables[k]) := by
  have hmap : k < (fetchVariables.map Stmt.fetch).length := by rwa [List.length_map]
  rw [program, List.getElem?_append_right (by unfold nextTick; omega), prologue, List.cons_append,
    show nextTick + 1 + k - resetStmts.length = k + 1 by unfold nextTick; omega, List.getElem?_cons_succ,
    List.getElem?_append_left hmap, List.getElem?_eq_getElem hmap, List.getElem_map]

/-- The variables after some of the fetches from `p`. -/
def fetchedFrom (s : System W Obj Env) (p : Val W Obj) (names : List String) (v : Vars W Obj) :
    Vars W Obj :=
  written names (s.vars p) v

omit [DecidableEq W] in
theorem written_append_singleton (names : List String) (x : String) (new old : Vars W Obj) :
    Function.update (written names new old) x (new x) = written (names ++ [x]) new old := by
  funext y
  unfold written
  by_cases hy : y = x
  · subst hy
    simp
  · rw [Function.update_of_ne hy]
    simp [hy]

variable [DecidableEq Obj] {b : Code W Obj Env}

/-! ## Runs of one worker -/

/-- Worker `w` executes a number of statements, none of which yields. -/
inductive Runs (b : Code W Obj Env) (w : W) :
    Nat → System W Obj Env → System W Obj Env → List (ThreadEvent W Obj Env) → Prop
  | zero (s : System W Obj Env) : Runs b w 0 s s []
  | succ {k : Nat} {s u : System W Obj Env} {es : List (ThreadEvent W Obj Env)}
      (hyields : s.yields b w = false)
      (h : Runs b w k (s.step b w) u es) : Runs b w (k + 1) s u (s.stepEvents w ++ es)

theorem Runs.trans {j k : Nat} {es es' : List (ThreadEvent W Obj Env)} (h : Runs b w j s u es)
    (h' : Runs b w k u s' es') :
    Runs b w (j + k) s s' (es ++ es') := by
  induction h with
  | zero => rwa [Nat.zero_add]
  | succ hyields _ ih =>
      rw [Nat.succ_add, List.append_assoc]
      exact .succ hyields (ih h')

/-- An activation goes on behind the statements. -/
theorem Runs.activate {k : Nat} {es : List (ThreadEvent W Obj Env)} (h : Runs b w k s u es) (n : Nat) :
    System.activate b w (k + n) s = System.activate b w n u ∧
      System.activateEvents b w (k + n) s = es ++ System.activateEvents b w n u := by
  induction h with
  | zero s =>
      rw [Nat.zero_add]
      exact ⟨rfl, rfl⟩
  | succ hyields _ ih =>
      rw [Nat.succ_add, System.activate, System.activateEvents, hyields]
      exact ⟨ih.1, by rw [if_neg Bool.false_ne_true, ih.2, List.append_assoc]⟩

/-- A statement before `poll_interrupts`, but for a `wait` that starts. -/
theorem Runs.stmt {st : Stmt} (hst : program[(s.workers w).counter]? = some st)
    (hwait : st = .wait → (s.workers w).waiting = true) :
    Runs b w 1 s (s.stepStmt b w st) (if st = .writePrevProc then [.handOff] else []) := by
  have hyields : s.yields b w = false := by
    unfold System.yields
    dsimp only
    rw [hst]
    simpa using hwait
  have hstep : s.step b w = s.stepStmt b w st := by
    unfold System.step
    dsimp only
    rw [hst]
  have hevents : s.stepEvents w = if st = .writePrevProc then [.handOff] else [] := by
    unfold System.stepEvents
    rw [hst]
  have h := Runs.succ hyields (Runs.zero (s.step b w))
  rwa [hevents, List.append_nil, hstep] at h

/-- A statement of a worker in its prologue. -/
theorem runs_place (b : Code W Obj Env) (s : System W Obj Env) (w : W) (v : Vars W Obj) {st : Stmt}
    (hst : program[c]? = some st) (hwait : st ≠ .wait) :
    Runs b w 1 (s.place w c v) ((s.place w c v).stepStmt b w st)
      (if st = .writePrevProc then [.handOff] else []) :=
  .stmt (by rw [place_workers]; exact hst) fun h => absurd h hwait

/-! ## The fetch -/

/-- Worker `w` fetches the variables of `p`, which may be itself. -/
theorem runs_fetch {p : Val W Obj} {v : Vars W Obj} (hp : v "prev_proc" = p)
    (hself : p = .worker w → ∀ x ∈ fetchVariables, v x = s.vars p x) {k : Nat}
    (hk : k ≤ fetchVariables.length) :
    Runs b w k (s.place w (nextTick + 1) v)
      (s.place w (nextTick + 1 + k) (fetchedFrom s p (fetchVariables.take k) v)) [] := by
  induction k with
  | zero => exact .zero _
  | succ k ih =>
      have hlt : k < fetchVariables.length := hk
      have hmem := List.getElem_mem hlt
      have hprev : fetchedFrom s p (fetchVariables.take k) v "prev_proc" = p := by
        have hne : "prev_proc" ∉ fetchVariables := by decide
        rw [fetchedFrom, written, if_neg fun h => hne (List.mem_of_mem_take h), hp]
      have hread : (s.place w (nextTick + 1 + k) (fetchedFrom s p (fetchVariables.take k) v)).vars p
        fetchVariables[k] =
          s.vars p fetchVariables[k] := by
        by_cases hw : p = .worker w
        · have hvars : (s.place w (nextTick + 1 + k)
            (fetchedFrom s p (fetchVariables.take k) v)).vars p =
              fetchedFrom s p (fetchVariables.take k) v := by
            rw [hw]
            exact congrArg Worker.vars place_workers
          rw [hvars, fetchedFrom, written]
          split
          · rfl
          · exact hself hw _ hmem
        · rw [place_vars_of_ne hw]
      have hstep := runs_place b s w (fetchedFrom s p (fetchVariables.take k) v)
        (program_fetch hlt) (by rintro ⟨⟩)
      rw [System.stepStmt, place_assign, place_workers, if_neg (by rintro ⟨⟩)] at hstep
      dsimp only at hstep
      rw [hprev, hread, fetchedFrom, written_append_singleton, List.take_append_getElem hlt] at hstep
      exact (ih hlt.le).trans hstep

/-! ## Taking over -/

/-- The statement at `end_fetch`. -/
def takeOver : Nat := nextTick + 1 + fetchVariables.length

/-- A statement that does not take over. -/
theorem Runs.to {s' : System W Obj Env} (st : Stmt) (hst : program[c]? = some st)
    (hne : st ≠ .wait ∧ st ≠ .writePrevProc) (hstep : (s.place w c v).stepStmt b w st = s') :
    Runs b w 1 (s.place w c v) s' [] := by
  have h := runs_place b s w v hst hne.1
  rwa [if_neg hne.2, hstep] at h

/-- The increments of mcycle and mcycleh. -/
theorem runs_increment (b : Code W Obj Env) (s : System W Obj Env) (w : W) (v : Vars W Obj) :
    ∃ k v', k ≤ 6 ∧
      Runs b w k (s.place w (takeOver + 2) v)
        (System.place { s with env := (Thread.incrementMcycle b ⟨0, false, v, s.env⟩).env } w
          noOverflow v') [] ∧
      ∀ x ≠ "__mcycleh", v' x = (Thread.incrementMcycle b ⟨0, false, v, s.env⟩).vars x := by
  have hadd : Runs b w 1 (s.place w (takeOver + 2) v)
      (s.place w (takeOver + 3)
        (Function.update v "csr_mcycle" (.num ((v "csr_mcycle").toNum + 1)))) [] :=
    .to .addMcycle rfl (by decide) (by rw [System.stepStmt, place_assign, place_workers])
  have hjump : Runs b w 1 (s.place w (takeOver + 3)
    (Function.update v "csr_mcycle" (.num ((v "csr_mcycle").toNum + 1))))
      (s.place w (if (v "csr_mcycle").toNum + 1 < 0x100000000 then noOverflow else takeOver + 4)
        (Function.update v "csr_mcycle" (.num ((v "csr_mcycle").toNum + 1)))) [] :=
    .to .jumpNoOverflow rfl (by decide) (by
      rw [System.stepStmt, place_jump, place_workers]
      simp only [Function.update_self, Val.toNum]
      rfl)
  unfold Thread.incrementMcycle
  dsimp only
  by_cases hlt : (v "csr_mcycle").toNum + 1 < 0x100000000
  · rw [if_pos hlt] at hjump
    rw [if_pos hlt]
    exact ⟨_, _, by decide, hadd.trans hjump, fun _ _ => rfl⟩
  · rw [if_neg hlt] at hjump
    rw [if_neg hlt]
    generalize hv₁ : Function.update v "csr_mcycle" (Val.num ((v "csr_mcycle").toNum + 1)) =
      v₁ at hadd hjump
    have hset : Runs b w 1 (s.place w (takeOver + 4) v₁)
        (s.place w (takeOver + 5) (Function.update v₁ "csr_mcycle" (.num 0))) [] :=
      .to .setMcycle rfl (by decide) (by rw [System.stepStmt, place_assign])
    generalize hv₂ : Function.update v₁ "csr_mcycle" (Val.num 0) = v₂ at hset
    have hread : Runs b w 1 (s.place w (takeOver + 5) v₂)
        (s.place w (takeOver + 6) (Function.update v₂ "__mcycleh" (b.readMcycleh s.env))) [] :=
      .to .readMcycleh rfl (by decide) (by rw [System.stepStmt, place_assign]; rfl)
    have haddh : Runs b w 1 (s.place w (takeOver + 6)
      (Function.update v₂ "__mcycleh" (b.readMcycleh s.env)))
        (s.place w (takeOver + 7)
          (Function.update v₂ "__mcycleh" (.num ((b.readMcycleh s.env).toNum + 1)))) [] :=
      .to .addMcycleh rfl (by decide) (by
        rw [System.stepStmt, place_assign, place_workers]
        dsimp only
        rw [Function.update_self, Function.update_idem])
    generalize hv₃ : Function.update v₂ "__mcycleh" (Val.num ((b.readMcycleh s.env).toNum + 1)) =
      v₃ at haddh
    have hwrite : Runs b w 1 (s.place w (takeOver + 7) v₃)
        (System.place { s with env := b.writeMcycleh s.env (.num ((b.readMcycleh s.env).toNum + 1)) }
          w noOverflow v₃) [] :=
      .to .writeMcycleh rfl (by decide) (by
        have hmcycleh : v₃ "__mcycleh" = .num ((b.readMcycleh s.env).toNum + 1) := by
          rw [← hv₃, Function.update_self]
        rw [System.stepStmt, place_workers]
        dsimp only
        rw [hmcycleh]
        change (System.place
          { s with env := b.writeMcycleh s.env (.num ((b.readMcycleh s.env).toNum + 1)) }
          w (takeOver + 7) v₃).next w = _
        exact place_next)
    refine ⟨_, v₃, by decide, (((hadd.trans hjump).trans hset).trans hread).trans
      (haddh.trans hwrite), fun x hx => ?_⟩
    rw [← hv₃, Function.update_of_ne hx, ← hv₂, ← hv₁, Function.update_idem]

/-- The end of the prologue behind the controller. -/
theorem runs_poll (b : Code W Obj Env) (s : System W Obj Env) (w : W) {v : Vars W Obj}
    (hv : v "prev_proc" = .controller) :
    Runs b w 1 (s.place w noOverflow v) (s.place w pollInterrupts v) [] :=
  .to .jumpPollInterrupts rfl (by decide) (by
    rw [System.stepStmt, place_jump, place_workers]
    exact congrArg (s.place w · v) (if_pos hv))

omit [DecidableEq Obj] in
theorem place_writeCounter {o : W} (ho : o ≠ w) (n : Nat) :
    (s.place w c v).writeCounter n (.worker o) = (s.writeCounter n (.worker o)).place w c v := by
  rw [System.writeCounter, place_workers_of_ne ho]
  simp only [System.place, System.setWorker, System.writeCounter]
  rw [Function.update_comm ho.symm]

/-- The end of the prologue behind a worker: it is sent to `next_tick`, and its place is taken. -/
theorem runs_restore (b : Code W Obj Env) (s : System W Obj Env) (w : W) {v : Vars W Obj} {o : W}
    (ho : o ≠ w) (hv : v "prev_proc" = .worker o) :
    Runs b w 4 (s.place w noOverflow v)
      ((s.writeCounter nextTick (.worker o)).place w (s.workers o).counter
        (Function.update v "__counter" (.num (s.workers o).counter))) [] := by
  have hjump : Runs b w 1 (s.place w noOverflow v) (s.place w (noOverflow + 1) v) [] :=
    .to .jumpPollInterrupts rfl (by decide) (by
      rw [System.stepStmt, place_jump, place_workers]
      exact congrArg (s.place w · v) (if_neg fun h => absurd (hv.symm.trans h) (by rintro ⟨⟩)))
  have hread : Runs b w 1 (s.place w (noOverflow + 1) v)
      (s.place w (noOverflow + 2) (Function.update v "__counter" (.num (s.workers o).counter))) [] :=
    .to .readCounter rfl (by decide) (by
      rw [System.stepStmt, place_assign, place_workers]
      dsimp only
      rw [hv, System.counter, place_workers_of_ne ho])
  generalize hv' : Function.update v "__counter" (Val.num (s.workers o).counter) = v' at hread
  have hprev : v' "prev_proc" = .worker o := by
    rw [← hv', Function.update_of_ne (by decide), hv]
  have hwrite : Runs b w 1 (s.place w (noOverflow + 2) v')
      ((s.writeCounter nextTick (.worker o)).place w (noOverflow + 3) v') [] :=
    .to .writeCounter rfl (by decide) (by
      rw [System.stepStmt, place_workers]
      dsimp only
      rw [hprev, place_writeCounter ho, place_next])
  have hset : Runs b w 1 ((s.writeCounter nextTick (.worker o)).place w (noOverflow + 3) v')
      ((s.writeCounter nextTick (.worker o)).place w (s.workers o).counter v') [] :=
    .to .setCounter rfl (by decide) (by
      rw [System.stepStmt, place_workers]
      dsimp only
      rw [← hv', Function.update_self, place_writeCounter_self]
      rfl)
  exact ((hjump.trans hread).trans hwrite).trans hset

end Mlogv32.Workers
