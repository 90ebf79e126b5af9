import Mlogv32.Cpu.Lemmas.Cursor

/-!
# Fetches from memory

The cursor follows the run inside a page, and is dropped where the page, the mode or satp can
change. So an instruction that is executed is the one that memory has at the address of `pc`, in the
page that the last translation found.
-/

namespace Mlogv32.Cpu
open Mlog Logic Isa

variable {cfg : Config} {s s' : Hart} {o : Option Resolved}

/-! ## Traces -/

/-- A machine with what the last fetch without a cursor found. -/
structure FetchTrace where
  machine : Machine
  resolved : Option Resolved

def FetchTrace.apply (cfg : Config) (t : FetchTrace) (e : Event) : FetchTrace where
  machine := t.machine.apply cfg e
  resolved :=
    match e with
    | .step => (t.machine.resolved cfg).or t.resolved
    | _ => t.resolved

/-- The states of a run since the first reset. -/
abbrev FetchReaches (cfg : Config) (guard : Machine → Event → Prop) : FetchTrace → Prop :=
  Reachable (fun t => ∃ uarts, t = { machine := Machine.start cfg uarts, resolved := none })
    (fun t e => guard t.machine e) (FetchTrace.apply cfg)

/-! ## Steps -/

/-- What the cursor tracks at a point: the instruction that is fetched next. -/
def PointTracks (cfg : Config) (o : Option Resolved) : Point → Hart → Prop
  | .pollInterrupts, s => CursorTracks cfg o s.pc s
  | .fireInterrupts, s => CursorTracks cfg o s.pc s
  | .main, s => CursorTracks cfg o s.pc s
  | .execute _ _ _, s => AtDispatch cfg o s
  | .ending _, s => CursorTracks cfg o s.nextPc s
  | _, _ => True

theorem pointTracks_null (cfg : Config) (o : Option Resolved) (p : Point) (h : s.icacheVar = .null) :
    PointTracks cfg o p s := by
  have htracks (pc : Int) : CursorTracks cfg o pc s := Or.inl h
  cases p with
  | pollInterrupts => exact htracks _
  | fireInterrupts => exact htracks _
  | main => exact htracks _
  | execute => exact ⟨htracks _, Or.inl h⟩
  | ending => exact htracks _
  | trap => trivial
  | reset => trivial
  | lost => trivial

/-- A change of the counters, the timers or the flags. -/
theorem PointTracks.frame {p : Point} (h : PointTracks cfg o p s)
    (hcursor : (s'.icacheRam, s'.icacheVar) = (s.icacheRam, s.icacheVar)) (hpc : s'.pc = s.pc)
    (hnext : s'.nextPc = s.nextPc) (hkeeps : KeepsIcache cfg s s') (hspace : SameSpace cfg s s') :
    PointTracks cfg o p s' := by
  have htracks {pc pc' : Int} (heq : pc' = pc) (h : CursorTracks cfg o pc s) :
      CursorTracks cfg o pc' s' := by
    rw [heq]
    exact h.frame hcursor hkeeps hspace
  cases p with
  | pollInterrupts => exact htracks hpc h
  | fireInterrupts => exact htracks hpc h
  | main => exact htracks hpc h
  | execute =>
      refine ⟨htracks hnext h.1, ?_⟩
      rw [hpc, hnext]
      exact h.2.imp_left fun hnull => (congrArg Prod.snd hcursor).trans hnull
  | ending => exact htracks hnext h
  | trap => trivial
  | reset => trivial
  | lost => trivial

/-- The end of an instruction leaves the cursor alone. -/
theorem retiredHart_cursor (cfg : Config) (s : Hart) (e : End) :
    (retiredHart cfg s e).icacheRam = s.icacheRam ∧ (retiredHart cfg s e).icacheVar = s.icacheVar ∧
      (retiredHart cfg s e).nextPc = s.nextPc := by
  have hrd : (writeRd { s with csrMip := e.raise s.csrMip } e.rdId e.rd).icacheRam = s.icacheRam ∧
      (writeRd { s with csrMip := e.raise s.csrMip } e.rdId e.rd).icacheVar = s.icacheVar ∧
      (writeRd { s with csrMip := e.raise s.csrMip } e.rdId e.rd).nextPc = s.nextPc := by
    unfold writeRd
    split <;> exact ⟨rfl, rfl, rfl⟩
  unfold retiredHart incrementInstret
  dsimp only
  split
  · exact hrd
  · exact hrd

theorem finish_tracks {e : End} (h : CursorTracks cfg o s.nextPc s) :
    PointTracks cfg o (finish cfg s e).1 (finish cfg s e).2 := by
  have hkeeps := finish_keepsIcache cfg s e
  have hspace := (finish_system cfg s e).sameSpace
  cases hretires : e.retires with
  | false =>
      cases e with
      | reset => trivial
      | lost => trivial
      | _ => cases hretires
  | true =>
      obtain ⟨hram, hvar, hnext⟩ := retiredHart_cursor cfg s e
      rw [finish_eq cfg s hretires, endInstructionTrap_snd] at hkeeps hspace ⊢
      have htracks : CursorTracks cfg o (retiredHart cfg s e).nextPc
          { retiredHart cfg s e with pc := (retiredHart cfg s e).nextPc } := by
        rw [hnext]
        exact h.frame (Prod.ext hram hvar) (hnext ▸ hkeeps) (hnext ▸ hspace)
      rw [endInstructionTrap_fst]
      split_ifs <;> exact htracks

theorem trapCheckMxdeleg_null (cfg : Config) (mxdeleg : Int) (t : Trap) (s : Hart) :
    (trapCheckMxdeleg cfg mxdeleg t s).2.icacheVar = .null := by
  obtain ⟨c, _, _, _, -, heq⟩ := trapCheckMxdeleg_eq cfg mxdeleg t s
  rw [heq]
  rfl

/-- What holds of the cursor in every state of a run. -/
structure TraceTracks (cfg : Config) (t : FetchTrace) : Prop where
  sound : SoundMachine cfg t.machine
  coherent : Coherent cfg t.machine.hart
  tracks : PointTracks cfg t.resolved t.machine.point t.machine.hart

theorem TraceTracks.step {t : FetchTrace} (h : TraceTracks cfg t) (hg : StoresOk cfg t.machine .step) :
    PointTracks cfg (t.apply cfg .step).resolved (t.apply cfg .step).machine.point
      (t.apply cfg .step).machine.hart := by
  obtain ⟨hsound, hcoherent, htracks⟩ := h
  have hs := hsound.hart
  have hkeeps := hsound.keepsIcache .step hg (by rintro ⟨⟩)
  have hother (hmain : t.machine.point ≠ .main) :
      (t.machine.resolved cfg).or t.resolved = t.resolved := by
    have hnone : t.machine.resolved cfg = none := by
      unfold Machine.resolved
      split
      · rename_i hpoint
        exact absurd hpoint hmain
      · rfl
    rw [hnone, Option.none_or]
  change PointTracks cfg ((t.machine.resolved cfg).or t.resolved)
    (stepPoint cfg t.machine.point t.machine.hart).1
    (stepPoint cfg t.machine.point t.machine.hart).2
  change KeepsIcache cfg t.machine.hart (stepPoint cfg t.machine.point t.machine.hart).2 at hkeeps
  cases hpoint : t.machine.point with
  | pollInterrupts =>
      rw [hpoint] at htracks hkeeps
      rw [hother (by rw [hpoint]; rintro ⟨⟩)]
      exact CursorTracks.frame htracks rfl hkeeps ⟨rfl, rfl⟩
  | fireInterrupts =>
      rw [hpoint] at htracks hkeeps
      rw [hother (by rw [hpoint]; rintro ⟨⟩)]
      rcases fireInterrupts_cases cfg t.machine.hart with heq | ⟨i, heq⟩
      · rw [stepPoint, heq] at hkeeps ⊢
        exact CursorTracks.frame htracks rfl hkeeps ⟨rfl, rfl⟩
      · rw [stepPoint, heq]
        exact pointTracks_null cfg _ _ (trapCheckMxdeleg_null cfg _ _ _)
  | main =>
      rw [hpoint] at htracks
      rw [stepPoint]
      have hfetch := fetch_correct cfg t.machine.hart
      cases hx : fetch cfg t.machine.hart with
      | ok d s' =>
          obtain ⟨d', rfl, -⟩ := wp_ok hfetch hx hs
          exact (fetch_fromMemory hsound hcoherent htracks hpoint hx).1
      | error => trivial
  | execute d rs1 rs2 =>
      rw [hpoint] at htracks hkeeps
      rw [hother (by rw [hpoint]; rintro ⟨⟩), stepPoint]
      rw [stepPoint] at hkeeps
      cases hx : execute cfg d rs1 rs2 t.machine.hart with
      | ok e s' =>
          obtain ⟨label, -, heffect⟩ := execute_effect (hsound.ready hpoint hg) hx
          have hnext : CodeAddress t.machine.hart.nextPc := by
            have hp := hsound.point
            rw [hpoint] at hp
            exact hp.2
          rw [hx] at hkeeps
          exact (heffect.cursorEffect hs).tracks hkeeps htracks hnext.2
      | error => trivial
  | ending e =>
      rw [hpoint] at htracks
      rw [hother (by rw [hpoint]; rintro ⟨⟩)]
      exact finish_tracks htracks
  | trap tr =>
      rw [hother (by rw [hpoint]; rintro ⟨⟩)]
      exact pointTracks_null cfg _ _ (trapCheckMxdeleg_null cfg _ tr _)
  | reset => trivial
  | lost => trivial

theorem TraceTracks.apply {t : FetchTrace} (h : TraceTracks cfg t) (e : Event)
    (hg : StoresOk cfg t.machine e) :
    TraceTracks cfg (t.apply cfg e) := by
  refine ⟨h.sound.apply e hg, h.coherent.apply h.sound e hg, ?_⟩
  have hkeeps := h.sound.keepsIcache e hg
  cases e with
  | step => exact h.step hg
  | reset => exact pointTracks_null cfg _ _ rfl
  | device uarts => exact h.tracks.frame rfl rfl rfl (hkeeps (by rintro ⟨⟩)) ⟨rfl, rfl⟩
  | tick delta =>
      have hkeeps := hkeeps (by rintro ⟨⟩)
      change PointTracks cfg t.resolved (t.machine.apply cfg (.tick delta)).point
        (t.machine.apply cfg (.tick delta)).hart
      rw [Machine.apply] at hkeeps ⊢
      split at hkeeps
      · rw [if_pos ‹_›]
        exact h.tracks.frame rfl rfl rfl hkeeps ⟨rfl, rfl⟩
      · rw [if_neg ‹_›]
        exact h.tracks
  | handOff =>
      have hkeeps := hkeeps (by rintro ⟨⟩)
      change PointTracks cfg t.resolved (t.machine.apply cfg .handOff).point
        (t.machine.apply cfg .handOff).hart
      rw [Machine.apply] at hkeeps ⊢
      split at hkeeps
      · rw [if_pos ‹_›]
        have hmcycle (hk : KeepsIcache cfg t.machine.hart (incrementMcycle cfg t.machine.hart)) :
            PointTracks cfg t.resolved t.machine.point (incrementMcycle cfg t.machine.hart) := by
          unfold incrementMcycle at hk ⊢
          dsimp only at hk ⊢
          split at hk
          · rw [if_pos ‹_›]
            exact h.tracks.frame rfl rfl rfl hk ⟨rfl, rfl⟩
          · rw [if_neg ‹_›]
            exact h.tracks.frame rfl rfl rfl hk ⟨rfl,
              writeCsr_csr { t.machine.hart with csrMcycle := 0 } (by decide) _⟩
        exact hmcycle hkeeps
      · rw [if_neg ‹_›]
        exact h.tracks

/-! ## Runs -/

theorem FetchReaches.traceTracks {guard : Machine → Event → Prop}
    (hguard : ∀ m e, guard m e → StoresOk cfg m e) {t : FetchTrace} (h : FetchReaches cfg guard t) :
    TraceTracks cfg t := by
  refine Reachable.invariant (I := TraceTracks cfg) (fun t ht => ?_) (fun t e ht hg =>
    ht.apply e (hguard _ e hg)) h
  obtain ⟨uarts, rfl⟩ := ht
  exact ⟨soundMachine_start cfg uarts, coherent_start cfg uarts, pointTracks_null cfg _ _ rfl⟩

/-- In every state of a run whose stores are `StoreOk`: at `main`, the cursor is `null`, or the slot
of the address of `pc` in the page that the last fetch without a cursor found, where `pc` is in the
same virtual page, and the mode and satp are the same, as at that fetch. -/
theorem cursor_tracks {guard : Machine → Event → Prop}
    (hguard : ∀ m e, guard m e → StoresOk cfg m e) {t : FetchTrace} (h : FetchReaches cfg guard t)
    (hpoint : t.machine.point = .main) :
    t.machine.hart.icacheVar = .null ∨ ∃ r, t.resolved = some r ∧ r.Current cfg t.machine.hart ∧
      icacheSlot cfg (4096 * r.page + t.machine.hart.pc % 4096) =
        (t.machine.hart.icacheRam, t.machine.hart.icacheVar) := by
  have htracks := (h.traceTracks hguard).tracks
  rw [hpoint] at htracks
  rcases htracks with hnull | ⟨r, hr, htracks⟩
  · exact Or.inl hnull
  · exact Or.inr ⟨r, hr, ⟨htracks.virtualPage, htracks.privilegeMode, htracks.satp⟩, htracks.slot⟩

/-- In every state of a run whose stores are `StoreOk`: the instruction that `main` goes on to
execute is the one that memory has now at the address of `pc`, in the page that the last translation
found, and its operands are the registers that it names. -/
theorem fetch_executes {guard : Machine → Event → Prop}
    (hguard : ∀ m e, guard m e → StoresOk cfg m e) {t : FetchTrace} (h : FetchReaches cfg guard t)
    (hpoint : t.machine.point = .main) {d : Fetched} {rs1 rs2 : Int}
    (hstep : (t.machine.step cfg).point = .execute d rs1 rs2) :
    ∃ r, (t.apply cfg .step).resolved = some r ∧ r.Current cfg t.machine.hart ∧
      FromMemory cfg t.machine.hart.procs (4096 * r.page + t.machine.hart.pc % 4096) d ∧
      rs1 = t.machine.hart.registers d.rs1Id ∧ rs2 = t.machine.hart.registers d.rs2Id := by
  obtain ⟨hsound, hcoherent, htracks⟩ := h.traceTracks hguard
  rw [hpoint] at htracks
  change (stepPoint cfg t.machine.point t.machine.hart).1 = _ at hstep
  rw [hpoint, stepPoint] at hstep
  cases hx : fetch cfg t.machine.hart with
  | error tr s' =>
      rw [hx] at hstep
      cases hstep
  | ok d' s' =>
      rw [hx] at hstep
      change dispatch d' s' = _ at hstep
      cases d' with
      | none => cases hstep
      | some d' =>
          obtain ⟨rfl, rfl, rfl⟩ := Point.execute.inj hstep
          obtain ⟨-, r, hr, hcurrent, hfrom⟩ := fetch_fromMemory hsound hcoherent htracks hpoint hx
          have hregisters : s'.registers = t.machine.hart.registers := by
            obtain ⟨_, -, hfetches⟩ := wp_ok (fetch_correct cfg t.machine.hart) hx hsound.hart
            exact hfetches.registers
          exact ⟨r, hr, hcurrent, hfrom, by rw [hregisters], by rw [hregisters]⟩

/-! ## The written code -/

/-- The run of `storeCode`, with the translations. -/
def storeCodeTrace (n : Nat) : FetchTrace :=
  (List.replicate n Event.step).foldl (FetchTrace.apply (smallBuild (romOfWords storeCode)))
    { machine := Machine.start (smallBuild (romOfWords storeCode)) fun _ _ => 0, resolved := none }

theorem storeCodeTrace_machine (n : Nat) : (storeCodeTrace n).machine = storeCodeRun n := by
  have hfold (es : List Event) (t : FetchTrace) :
      (es.foldl (FetchTrace.apply (smallBuild (romOfWords storeCode))) t).machine =
        es.foldl (Machine.apply (smallBuild (romOfWords storeCode))) t.machine := by
    induction es generalizing t with
    | nil => rfl
    | cons e es ih => exact ih _
  exact hfold _ _

theorem storeCodeTrace_reaches {n : Nat} (hn : n ≤ 17) :
    FetchReaches (smallBuild (romOfWords storeCode)) (StoresOk (smallBuild (romOfWords storeCode)))
      (storeCodeTrace n) := by
  refine Reachable.run (.init ⟨_, rfl⟩) _ fun i hi => ?_
  rw [List.length_replicate] at hi
  rw [List.take_replicate, List.getElem_replicate, min_eq_left hi.le]
  change StoresOk _ (storeCodeTrace i).machine .step
  rw [storeCodeTrace_machine]
  exact storeCode_storesOk (by omega)

/-- Behind the written instruction. -/
theorem cursor_tracks_storeCode :
    (storeCodeTrace 17).machine.hart.icacheVar = .null ∨ ∃ r, (storeCodeTrace 17).resolved = some r ∧
      r.Current (smallBuild (romOfWords storeCode)) (storeCodeTrace 17).machine.hart ∧
      icacheSlot (smallBuild (romOfWords storeCode))
        (4096 * r.page + (storeCodeTrace 17).machine.hart.pc % 4096) =
        ((storeCodeTrace 17).machine.hart.icacheRam, (storeCodeTrace 17).machine.hart.icacheVar) := by
  have hpoint : (storeCodeRun 17).point = .main := by decide +kernel
  rw [← storeCodeTrace_machine] at hpoint
  exact cursor_tracks (fun _ _ h => h) (storeCodeTrace_reaches le_rfl) hpoint

/-- The fetched instruction of `storeCode` in RAM. -/
def nopX0 : Fetched :=
  { opId := -36, imm := 0, result := -5066549580791808, rdId := 0, rs1Id := 0, rs2Id := 0 }

/-- The jump executes the instruction that was written. -/
theorem fetch_executes_storeCode :
    ∃ r, ((storeCodeTrace 14).apply (smallBuild (romOfWords storeCode)) .step).resolved = some r ∧
      r.Current (smallBuild (romOfWords storeCode)) (storeCodeTrace 14).machine.hart ∧
      FromMemory (smallBuild (romOfWords storeCode)) (storeCodeTrace 14).machine.hart.procs
        (4096 * r.page + (storeCodeTrace 14).machine.hart.pc % 4096) nopX0 ∧
      0 = (storeCodeTrace 14).machine.hart.registers nopX0.rs1Id ∧
      0 = (storeCodeTrace 14).machine.hart.registers nopX0.rs2Id := by
  have hpoint : (storeCodeRun 14).point = .main := by decide +kernel
  have hstep : ((storeCodeRun 14).step (smallBuild (romOfWords storeCode))).point =
    .execute nopX0 0 0 := by decide +kernel
  rw [← storeCodeTrace_machine] at hpoint hstep
  exact fetch_executes (fun _ _ h => h) (storeCodeTrace_reaches (by decide)) hpoint hstep

/-! ## The cursor of a run -/

end Mlogv32.Cpu
