import Mlogv32.Cpu.Lemmas.Atomic
import Mlogv32.Cpu.Lemmas.Mode

/-!
# LR and SC

The reservation is the address of the last LR or SC, if it was an LR. So an SC succeeds exactly if
the last LR or SC that did not trap was an LR of its address.
-/

namespace Mlogv32.Cpu
open Mlog Logic Isa

variable {cfg : Config}

/-! ## The history of LR and SC -/

/-- An LR.W or SC.W that did not trap, with its physical address. -/
inductive LrSc where
  | lr (address : Int)
  | sc (address : Int)
  deriving DecidableEq, Repr

/-- The LR.W or SC.W that a handler executes, if it does not trap. -/
def handlerLrSc (cfg : Config) (rs1 : Int) (s : Hart) : Label → Option LrSc
  | .LR_W =>
      match atomicValidateAddress cfg 4 rs1 s with
      | .ok address _ => some (.lr address)
      | .error _ _ => none
  | .SC_W =>
      match atomicValidateAddress cfg 6 rs1 s with
      | .ok address _ => some (.sc address)
      | .error _ _ => none
  | _ => none

/-- The LR.W or SC.W that the next step executes, if it does not trap. -/
def Machine.lrSc (cfg : Config) (m : Machine) : Option LrSc :=
  match m.point with
  | .execute d rs1 _ => (labels (d.opId + 192)).bind (handlerLrSc cfg rs1 m.hart)
  | _ => none

/-- A machine with the last LR.W or SC.W since the reset that did not trap. -/
structure LrScTrace where
  machine : Machine
  last : Option LrSc

def LrScTrace.apply (cfg : Config) (t : LrScTrace) (e : Event) : LrScTrace where
  machine := t.machine.apply cfg e
  last :=
    match e with
    | .reset => none
    | .step => (t.machine.lrSc cfg).or t.last
    | _ => t.last

/-- The states of a run since the first reset. -/
abbrev LrScReaches (cfg : Config) : LrScTrace → Prop :=
  Reachable (fun t => ∃ uarts, t = { machine := Machine.start cfg uarts, last := none })
    (fun _ (_ : Event) => True)
    (LrScTrace.apply cfg)

/-- The reservation that an LR or SC leaves. -/
def LrSc.reservation : LrSc → Option Int
  | .lr address => some address
  | .sc _ => none

/-! ## Handlers -/

theorem lrW_run {d : Fetched} {rs1 a : Int} {s s' : Hart}
    (h : atomicValidateAddress cfg 4 rs1 s = .ok a s') :
    lrW cfg d rs1 s = .ok (.endInstructionWithRd d.rdId (loadRamWordUnchecked cfg s'.procs a))
      { s' with reservationSet := some a } := by
  rw [lrW, bind_ok h]
  rfl

theorem scW_run {d : Fetched} {rs1 a : Int} {s s' : Hart} (rs2 : Int)
    (h : atomicValidateAddress cfg 6 rs1 s = .ok a s') :
    scW cfg d rs1 rs2 s =
      if s'.reservationSet = some a then
        .ok (.endInstructionWithRd d.rdId 0) (storedRam cfg { s' with reservationSet := none } a rs2)
      else .ok (.endInstructionWithRd d.rdId 1) { s' with reservationSet := none } := by
  rw [scW, bind_ok h, bind_get]
  by_cases hr : s'.reservationSet = some a
  · rw [if_pos hr, if_pos hr]
    rfl
  · rw [if_neg hr, if_neg hr]
    rfl

theorem storedRam_reservation (cfg : Config) (s : Hart) (address value : Int) :
    (storedRam cfg s address value).reservationSet = s.reservationSet := by
  rw [storedRam]
  split <;> rfl

theorem LoadFrame.reservationSet {s s' : Hart} (h : LoadFrame s s') :
    s'.reservationSet = s.reservationSet :=
  congrArg Prod.snd h.control

theorem KeepsControl.reservation {α : Type} {x : Op α} (h : KeepsControl x) :
    Keeps Hart.reservationSet x := fun s =>
  wp_mono (h s) (fun _ _ h => congrArg Prod.snd h) fun _ _ h => congrArg Prod.snd h

/-- The reservation that the LR or SC of a step leaves, or the one before. -/
def nextReservation (s : Hart) (l : Option LrSc) : Option Int :=
  (l.map LrSc.reservation).getD s.reservationSet

theorem lrW_reservation (cfg : Config) (d : Fetched) (rs1 : Int) (s : Hart) :
    wp (lrW cfg d rs1) (fun _ s' => s'.reservationSet = nextReservation s (handlerLrSc cfg rs1 s .LR_W))
      (fun _ s' => s'.reservationSet = nextReservation s (handlerLrSc cfg rs1 s .LR_W)) s := by
  rw [wp, handlerLrSc]
  cases hx : atomicValidateAddress cfg 4 rs1 s with
  | ok a s' =>
      rw [lrW_run hx]
      rfl
  | error t s' =>
      rw [lrW, bind_error hx]
      exact (wp_error (atomicValidateAddress_frame cfg 4 rs1 s) hx).reservationSet

theorem scW_reservation (cfg : Config) (d : Fetched) (rs1 rs2 : Int) (s : Hart) :
    wp (scW cfg d rs1 rs2) (fun _ s' => s'.reservationSet =
      nextReservation s (handlerLrSc cfg rs1 s .SC_W))
      (fun _ s' => s'.reservationSet = nextReservation s (handlerLrSc cfg rs1 s .SC_W)) s := by
  rw [wp, handlerLrSc]
  cases hx : atomicValidateAddress cfg 6 rs1 s with
  | ok a s' =>
      rw [scW_run rs2 hx]
      by_cases hr : s'.reservationSet = some a
      · rw [if_pos hr]
        exact storedRam_reservation cfg { s' with reservationSet := none } a rs2
      · rw [if_neg hr]
        rfl
  | error t s' =>
      rw [scW, bind_error hx]
      exact (wp_error (atomicValidateAddress_frame cfg 6 rs1 s) hx).reservationSet

theorem handler_reservation (cfg : Config) (d : Fetched) (rs1 rs2 : Int) (s : Hart) (label : Label) :
    wp (handler cfg d rs1 rs2 label) (fun _ s' => s'.reservationSet =
      nextReservation s (handlerLrSc cfg rs1 s label))
      (fun _ s' => s'.reservationSet = nextReservation s (handlerLrSc cfg rs1 s label)) s := by
  by_cases hcontrol : label ∈ [.PRIV, .LR_W, .SC_W]
  · simp only [List.mem_cons, List.not_mem_nil, or_false] at hcontrol
    rcases hcontrol with rfl | rfl | rfl
    · exact privHandler_reservation cfg d.imm s
    · exact lrW_reservation cfg d rs1 s
    · exact scW_reservation cfg d rs1 rs2 s
  · have hnone : handlerLrSc cfg rs1 s label = none := by
      cases label <;> first | rfl | simp at hcontrol
    rw [hnone]
    exact (handler_control cfg d rs1 rs2 hcontrol).reservation s

/-- An LR or SC is in the history exactly if it does not trap. -/
theorem handlerLrSc_eq_none (cfg : Config) (d : Fetched) (rs1 rs2 : Int) (s : Hart) {label : Label}
    (h : label = .LR_W ∨ label = .SC_W) :
    handlerLrSc cfg rs1 s label = none ↔ ∃ t s', handler cfg d rs1 rs2 label s = .error t s' := by
  rcases h with rfl | rfl
  · change handlerLrSc cfg rs1 s .LR_W = none ↔ ∃ t s', lrW cfg d rs1 s = .error t s'
    rw [handlerLrSc]
    cases hx : atomicValidateAddress cfg 4 rs1 s with
    | ok a s' => simp [lrW_run hx]
    | error t s' => simp [lrW, bind_error hx]
  · change handlerLrSc cfg rs1 s .SC_W = none ↔ ∃ t s', scW cfg d rs1 rs2 s = .error t s'
    rw [handlerLrSc]
    cases hx : atomicValidateAddress cfg 6 rs1 s with
    | ok a s' =>
        rw [scW_run rs2 hx]
        by_cases hr : s'.reservationSet = some a <;> simp [hr]
    | error t s' => simp [scW, bind_error hx]

/-! ## Steps -/

theorem trapCheckMxdeleg_reservation (cfg : Config) (mxdeleg : Int) (t : Trap) (s : Hart) :
    (trapCheckMxdeleg cfg mxdeleg t s).2.reservationSet = s.reservationSet := by
  obtain ⟨c, mode, mstatus, e, -, heq⟩ := trapCheckMxdeleg_eq cfg mxdeleg t s
  rw [heq]
  rfl

/-- A step changes the reservation if it executes an LR or SC that does not trap. -/
theorem Machine.step_reservation (cfg : Config) (m : Machine) :
    (m.step cfg).hart.reservationSet = nextReservation m.hart (m.lrSc cfg) := by
  rw [Machine.lrSc]
  change (stepPoint cfg m.point m.hart).2.reservationSet = _
  cases m.point with
  | pollInterrupts => rfl
  | fireInterrupts =>
      rw [stepPoint]
      rcases fireInterrupts_cases cfg m.hart with heq | ⟨i, heq⟩
      · rw [heq]
        rfl
      · rw [heq]
        exact trapCheckMxdeleg_reservation cfg _ _ _
  | main =>
      have hfetch := (fetch_control cfg).reservation m.hart
      rw [stepPoint]
      cases hx : fetch cfg m.hart with
      | ok d s' => exact (wp_ok hfetch hx :)
      | error t s' => exact (wp_error hfetch hx :)
  | execute d rs1 rs2 =>
      rw [stepPoint, execute]
      dsimp only
      cases hlabel : labels (d.opId + 192) with
      | none => rfl
      | some label =>
          have hhandler := handler_reservation cfg d rs1 rs2 m.hart label
          dsimp only [Option.bind_some]
          cases hx : handler cfg d rs1 rs2 label m.hart with
          | ok e s' => exact (wp_ok hhandler hx :)
          | error t s' => exact (wp_error hhandler hx :)
  | ending e => exact congrArg Prod.snd (finish_control cfg m.hart e)
  | trap t => exact trapCheckMxdeleg_reservation cfg _ t m.hart
  | reset => rfl
  | lost => rfl

theorem Machine.apply_reservation (cfg : Config) (m : Machine) {e : Event} (hstep : e ≠ .step)
    (hreset : e ≠ .reset) :
    (m.apply cfg e).hart.reservationSet = m.hart.reservationSet := by
  cases e with
  | step => exact absurd rfl hstep
  | reset => exact absurd rfl hreset
  | device uarts => rfl
  | tick delta =>
      rw [Machine.apply]
      split <;> rfl
  | handOff =>
      rw [Machine.apply]
      split
      · rw [incrementMcycle]
        split <;> rfl
      · rfl

/-! ## Runs -/

theorem LrScReaches.reservation {t : LrScTrace} (h : LrScReaches cfg t) :
    t.machine.hart.reservationSet = t.last.bind LrSc.reservation := by
  refine Reachable.invariant (I := fun t => t.machine.hart.reservationSet = t.last.bind LrSc.reservation)
    (fun t ht => ?_) (fun t e ih _ => ?_) h
  · obtain ⟨uarts, rfl⟩ := ht
    rfl
  · by_cases hreset : e = .reset
    · subst hreset
      rfl
    · by_cases hstep : e = .step
      · subst hstep
        change (t.machine.step cfg).hart.reservationSet =
          ((t.machine.lrSc cfg).or t.last).bind LrSc.reservation
        rw [Machine.step_reservation, nextReservation]
        cases t.machine.lrSc cfg with
        | none => exact ih
        | some l => rfl
      · have hlast : (t.apply cfg e).last = t.last := by
          cases e <;> first | rfl | exact absurd rfl hstep | exact absurd rfl hreset
        rw [hlast, ← ih]
        exact Machine.apply_reservation cfg t.machine hstep hreset

/-- The instruction completes in the state `s'`, and `rd` receives a value. -/
structure Completes (cfg : Config) (d : Fetched) (rs1 rs2 : Int) (s : Hart)
    (rd : Int) (s' : Hart) : Prop where
  ends : ∃ e, execute cfg d rs1 rs2 s = .ok e s' ∧ e.retires = true ∧
    ∀ i, (finish cfg s' e).2.registers i = if d.rdId ≠ 0 ∧ i = d.rdId then rd else s.registers i

theorem completes_of_ok {d : Fetched} {rs1 rs2 rd : Int} {s s' : Hart}
    (hx : execute cfg d rs1 rs2 s = .ok (.endInstructionWithRd d.rdId rd) s')
    (hs : s'.registers = s.registers) :
    Completes cfg d rs1 rs2 s rd s' :=
  ⟨_, hx, rfl, fun i => (finish_registers cfg s' rfl i).trans (by rw [hs]; rfl)⟩

theorem storedRam_registers (cfg : Config) (s : Hart) (address value : Int) :
    (storedRam cfg s address value).registers = s.registers := by
  rw [storedRam]
  split <;> rfl

/-- In every run: an LR returns the word. An SC that does not trap stores `rs2` and returns 0 if the
last LR or SC that did not trap was an LR of its address, else it returns 1 and changes no
processor. Only such an LR or SC, or a reset, changes the reservation. -/
theorem lrSc_protocol {t : LrScTrace} (h : LrScReaches cfg t) :
    (∀ d rs1 rs2 a s', t.machine.point = .execute d rs1 rs2 →
      (labels (d.opId + 192) = some .LR_W → atomicValidateAddress cfg 4 rs1 t.machine.hart = .ok a s' →
        ∃ s'', Completes cfg d rs1 rs2 t.machine.hart
          (loadRamWordUnchecked cfg t.machine.hart.procs a) s'' ∧
          s''.procs = t.machine.hart.procs) ∧
      (labels (d.opId + 192) = some .SC_W → atomicValidateAddress cfg 6 rs1 t.machine.hart = .ok a s' →
        (t.last = some (.lr a) → ∃ s'', Completes cfg d rs1 rs2 t.machine.hart 0 s'' ∧
          ∀ b, InRam cfg b → loadRamWordUnchecked cfg s''.procs b =
            if b / 4 = a / 4 then rs2 % 2 ^ 32 else loadRamWordUnchecked cfg t.machine.hart.procs b) ∧
        (t.last ≠ some (.lr a) → ∃ s'', Completes cfg d rs1 rs2 t.machine.hart 1 s'' ∧
          s''.procs = t.machine.hart.procs))) ∧
    (∀ d rs1 rs2 label, t.machine.point = .execute d rs1 rs2 → labels (d.opId + 192) = some label →
      label = .LR_W ∨ label = .SC_W →
      (t.machine.lrSc cfg = none ↔ ∃ trap s', execute cfg d rs1 rs2 t.machine.hart = .error trap s')) ∧
    (∀ e, e ≠ .reset → (e = .step → t.machine.lrSc cfg = none) →
      (t.machine.apply cfg e).hart.reservationSet = t.machine.hart.reservationSet) := by
  refine ⟨fun d rs1 rs2 a s' hpoint => ⟨fun hlabel ha => ?_, fun hlabel ha => ?_⟩,
    fun d rs1 rs2 label hpoint hlabel h => ?_, fun e hreset hnone => ?_⟩
  · obtain ⟨hframe, -, -⟩ := wp_ok (atomicValidateAddress_frame cfg 4 rs1 t.machine.hart) ha
    have hrun : execute cfg d rs1 rs2 t.machine.hart = _ :=
      (congrFun (execute_eq cfg rs1 rs2 hlabel) t.machine.hart).trans (lrW_run ha)
    rw [hframe.procs] at hrun
    exact ⟨_, completes_of_ok hrun hframe.registers, rfl⟩
  · obtain ⟨hframe, hram, -⟩ := wp_ok (atomicValidateAddress_frame cfg 6 rs1 t.machine.hart) ha
    have hrun : execute cfg d rs1 rs2 t.machine.hart = _ :=
      (congrFun (execute_eq cfg rs1 rs2 hlabel) t.machine.hart).trans (scW_run rs2 ha)
    have hset : s'.reservationSet = some a ↔ t.last = some (.lr a) := by
      rw [hframe.reservationSet, h.reservation]
      cases hlast : t.last with
      | none => simp
      | some l => cases l <;> simp [LrSc.reservation]
    refine ⟨fun hlast => ?_, fun hlast => ?_⟩
    · rw [if_pos (hset.mpr hlast)] at hrun
      refine ⟨_, completes_of_ok hrun ((storedRam_registers cfg _ a rs2).trans hframe.registers),
        fun b hb => ?_⟩
      rw [loadRamWordUnchecked_stored rs2 hram hb, hframe.procs]
    · rw [if_neg (mt hset.mp hlast)] at hrun
      exact ⟨_, completes_of_ok hrun hframe.registers, hframe.procs⟩
  · rw [Machine.lrSc, hpoint, execute_eq cfg rs1 rs2 hlabel]
    dsimp only
    rw [hlabel]
    exact handlerLrSc_eq_none cfg d rs1 rs2 t.machine.hart h
  · by_cases hstep : e = .step
    · subst hstep
      change (t.machine.step cfg).hart.reservationSet = _
      rw [Machine.step_reservation, hnone rfl]
      rfl
    · exact Machine.apply_reservation cfg t.machine hstep hreset

/-! ## A successful SC -/

/-- `lui x1, 0x80000`, `lr.w x2, (x1)` and `sc.w x3, x1, (x1)`. -/
def lrThenSc : List Nat := [0x800000b7, 0x1000a12f, 0x1810a1af]

/-- The run of `lrThenSc` up to the SC. -/
@[irreducible] def lrThenScTrace : LrScTrace :=
  (List.replicate 9 Event.step).foldl (LrScTrace.apply (smallBuild (romOfWords lrThenSc)))
    { machine := Machine.start (smallBuild (romOfWords lrThenSc)) fun _ _ => 0, last := none }

/-- The fetched SC of `lrThenSc`. -/
def scX3 :
    Fetched :=
      { opId := -44, imm := 0x80000000, result := 4548370366464, rdId := 3, rs1Id := 1, rs2Id := 1 }

theorem lrSc_protocol_lrThenSc :
    let s := lrThenScTrace.machine.hart
    ∃ s'', Completes (smallBuild (romOfWords lrThenSc)) scX3 0x80000000 0x80000000 s 0 s'' ∧
      ∀ b, InRam (smallBuild (romOfWords lrThenSc)) b →
      loadRamWordUnchecked (smallBuild (romOfWords lrThenSc)) s''.procs b =
        if b / 4 = 0x80000000 / 4 then 0x80000000 % 2 ^ 32
        else loadRamWordUnchecked (smallBuild (romOfWords lrThenSc)) s.procs b := by
  intro s
  have hreach : LrScReaches (smallBuild (romOfWords lrThenSc)) lrThenScTrace := by
    unfold lrThenScTrace
    exact Reachable.foldl (.init ⟨_, rfl⟩) _ fun _ _ _ => trivial
  have hpoint : lrThenScTrace.machine.point = .execute scX3 0x80000000 0x80000000 := by decide +kernel
  have hmode : ¬s.effectivePrivilegeMode < 0b11 := by decide +kernel
  have htranslate : atomicTranslate (smallBuild (romOfWords lrThenSc)) 6 0x80000000 s =
      .ok 0x80000000 s := by
    rw [atomicTranslate, bind_get, if_neg hmode]
    rfl
  have haddress := atomicValidateAddress_ok (by decide) htranslate
  rw [if_pos ⟨by decide, by decide⟩] at haddress
  exact (((lrSc_protocol hreach).1 _ _ _ _ _ hpoint).2 (by decide +kernel) haddress).1
    (by decide +kernel)

end Mlogv32.Cpu
