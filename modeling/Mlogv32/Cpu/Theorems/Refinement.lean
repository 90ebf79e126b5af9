import Mlogv32.Cpu.Lemmas.Refinement
import Mlogv32.Cpu.Theorems.Cursor
import Mlogv32.Logic.Simulation

/-!
# The worker refines the architecture

Whatever the ticks, the hand-offs and the devices do, a run of the worker is a run of the program in
the architecture, for as long as the program stays in machine mode and meets no trap.
-/

namespace Mlogv32.Cpu
open Mlog Logic Isa

variable {cfg : Config} {s s' : Hart} {t u v : State}

/-! ## Points -/

/-- The hart at a point, between two steps of the architecture. At the end of a handler it is in the
middle of the step. -/
def PointShows (cfg : Config) (t : State) : Point → Hart → Prop
  | .pollInterrupts, s => Shows cfg t s ∧ s.pc = t.pc.toNat
  | .fireInterrupts, s => Shows cfg t s ∧ s.pc = t.pc.toNat
  | .main, s => Shows cfg t s ∧ s.pc = t.pc.toNat
  | .execute d rs1 rs2, s => Dispatched cfg t d rs1 rs2 s ∧
      ∃ i v, d.Runs i ∧ t.Fetches cfg.platform i ∧ t.execute cfg.platform i = some v
  | .ending e, s => ∃ v, Step cfg.platform t v.retire ∧ Ends cfg v e s
  | _, _ => False

/-- How many steps of the worker at a boundary lie behind a point. -/
def Point.rank : Point → Nat
  | .fireInterrupts => 1
  | .main => 2
  | .execute _ _ _ => 3
  | .ending _ => 4
  | _ => 0

theorem writeRd_visible (hvisible : visible cfg s' = visible cfg s)
    (hmemory : memState cfg s' = memState cfg s) (rdId rd : Int) :
    visible cfg (writeRd s' rdId rd) = visible cfg (writeRd s rdId rd) ∧
      memState cfg (writeRd s' rdId rd) = memState cfg (writeRd s rdId rd) := by
  unfold writeRd
  split
  · exact ⟨hvisible, hmemory⟩
  · refine ⟨?_, hmemory⟩
    simp only [visible, Prod.mk.injEq] at hvisible ⊢
    obtain ⟨⟨hregisters, hmodes⟩, hcsrs⟩ := hvisible
    exact ⟨⟨by rw [hregisters], hmodes⟩, hcsrs⟩

theorem Ends.frame {e : End} (h : Ends cfg v e s) (hvisible : visible cfg s' = visible cfg s)
    (hmemory : memState cfg s' = memState cfg s) (hnext : s'.nextPc = s.nextPc) : Ends cfg v e s' := by
  obtain ⟨hvisible', hmemory'⟩ := writeRd_visible hvisible hmemory e.rdId e.rd
  exact ⟨h.retires, hnext.trans h.nextPc, h.shows.of_visible hvisible' hmemory'⟩

/-- A change of what the architecture does not see. -/
theorem PointShows.frame {p : Point} (h : PointShows cfg t p s)
    (hvisible : visible cfg s' = visible cfg s) (hmemory : memState cfg s' = memState cfg s)
    (hpc : s'.pc = s.pc) (hnext : s'.nextPc = s.nextPc) (hcursor : s'.icacheVar = s.icacheVar) :
    PointShows cfg t p s' := by
  have hshows (h : Shows cfg t s ∧ s.pc = t.pc.toNat) : Shows cfg t s' ∧ s'.pc = t.pc.toNat :=
    ⟨h.1.of_visible hvisible hmemory, hpc.trans h.2⟩
  cases p with
  | pollInterrupts => exact hshows h
  | fireInterrupts => exact hshows h
  | main => exact hshows h
  | execute =>
      obtain ⟨hd, hi⟩ := h
      exact ⟨⟨hd.shows.of_visible hvisible hmemory, hpc.trans hd.pc, hnext.trans hd.nextPc,
        hd.pcLt, hcursor ▸ hd.cursor,
        hd.operands⟩, hi⟩
  | ending =>
      obtain ⟨v, hstep, hends⟩ := h
      exact ⟨v, hstep, hends.frame hvisible hmemory hnext⟩
  | trap => exact h
  | reset => exact h
  | lost => exact h

/-! ## The end of an instruction -/

theorem ramBytes_congr {procs procs' : Procs} (hprocs : ∀ t, t ≠ cfg.csrs → procs' t = procs t) :
    ramBytes cfg procs' = ramBytes cfg procs := by
  funext a
  unfold ramBytes
  split
  · rename_i ha
    have hcell : InCells cfg (a - ramStart) := by
      unfold InRam PageConfig.ramEnd at ha
      unfold InCells
      omega
    rw [loadRamWordUnchecked_eq, loadRamWordUnchecked_eq, cell_of_ne_csrs hprocs hcell]
  · rfl

theorem writeCsr_memState (s : Hart) (n : Nat) (x : Int) :
    memState cfg (s.writeCsr cfg (.var n) x) = memState cfg s := by
  have hbytes : ramBytes cfg (s.writeCsr cfg (.var n) x).procs = ramBytes cfg s.procs :=
    ramBytes_congr fun _ ht => funext fun _ => if_neg fun h => ht h.1
  rw [memState, hbytes]
  rfl

theorem Shows.retire (h : Shows cfg v s) : Shows cfg v.retire (incrementInstret cfg s) := by
  obtain ⟨h0, hlt⟩ := h.csrMinstret
  have hinstret := h.instret
  have hretire : ((v.retire.instret : Nat) : Int) = v.instret + 1 := by
    rw [State.retire]
    push_cast
    rfl
  unfold incrementInstret
  dsimp only
  split
  · refine ⟨h.registers, h.memory, h.privilegeMode, h.effectivePrivilegeMode, h.csrMie,
      ⟨by dsimp only; omega, ‹_›⟩, ?_⟩
    rw [hretire, ← hinstret]
    change s.csr cfg minstrethCsr * 2 ^ 32 + (s.csrMinstret + 1) = _
    ring
  · refine ⟨h.registers, (writeCsr_memState { s with csrMinstret := 0 } minstrethCsr _).trans
      h.memory, h.privilegeMode,
      h.effectivePrivilegeMode, h.csrMie, ⟨le_rfl, (by decide : (0 : Int) < 2 ^ 32)⟩, ?_⟩
    rw [writeCsr_csr_self, hretire, ← hinstret]
    change _ + 0 = _
    omega

theorem writeRd_withMip (s : Hart) (mip rdId rd : Int) :
    writeRd { s with csrMip := mip } rdId rd = { writeRd s rdId rd with csrMip := mip } := by
  unfold writeRd
  split <;> rfl

theorem Ends.finish {e : End} (h : Ends cfg v e s) :
    PointShows cfg v.retire (finish cfg s e).1 (finish cfg s e).2 := by
  have hmip : Shows cfg v (writeRd { s with csrMip := e.raise s.csrMip } e.rdId e.rd) := by
    rw [writeRd_withMip]
    exact h.shows.of_visible rfl rfl
  have hnext := (retiredHart_cursor cfg s e).2.2
  have hretired : Shows cfg v.retire { retiredHart cfg s e with pc := (retiredHart cfg s e).nextPc } :=
    hmip.retire.of_visible rfl rfl
  have hshows : Shows cfg v.retire { retiredHart cfg s e with pc := (retiredHart cfg s e).nextPc } ∧
      (retiredHart cfg s e).nextPc = (v.retire.pc.toNat : Int) := ⟨hretired, hnext.trans h.nextPc⟩
  rw [finish_eq cfg s h.retires, endInstructionTrap_snd, endInstructionTrap_fst]
  split_ifs <;> exact hshows

/-! ## Steps -/

/-- What holds of a run of the worker and the state that it shows. -/
structure Refines (cfg : Config) (x : FetchTrace) (t : State) : Prop where
  tracks : TraceTracks cfg x
  flat : ∀ r, x.resolved = some r → r.Flat
  point : PointShows cfg t x.machine.point x.machine.hart

theorem Refines.boundary {x : FetchTrace} (h : Refines cfg x t)
    (hboundary : x.machine.point.isBoundary = true) :
    Shows cfg t x.machine.hart ∧ x.machine.hart.pc = t.pc.toNat := by
  have hpoint := h.point
  cases hp : x.machine.point with
  | pollInterrupts => rwa [hp] at hpoint
  | fireInterrupts => rwa [hp] at hpoint
  | main => rwa [hp] at hpoint
  | _ =>
      rw [hp] at hboundary
      cases hboundary

/-- The stores of the program are in RAM. -/
theorem Dispatched.storeOk {d : Fetched} {rs1 rs2 : Int} {i : Instr}
    (h : Dispatched cfg t d rs1 rs2 s) (hruns : d.Runs i) (hv : t.execute cfg.platform i = some v) :
    StoreOk cfg d rs1 rs2 s := by
  intro label hlabel
  obtain rfl := Option.some.inj (hruns.label.symm.trans hlabel)
  refine ⟨fun _ => ?_, fun hsw a s₁ ha => ?_⟩
  · obtain ⟨r, -, hr⟩ := h.operands.rs2
    have hlt := (t.registers r).isLt
    unfold IsWord
    omega
  · obtain ⟨r1, r2, imm, rfl⟩ : ∃ r1 r2 imm, i = .store .sw r1 r2 imm := by
      cases i with
      | store op => cases op <;> first | exact ⟨_, _, _, rfl⟩ | cases hsw
      | branch op => cases op <;> cases hsw
      | load op => cases op <;> cases hsw
      | opImm op => cases op <;> cases hsw
      | shiftImm op => cases op <;> cases hsw
      | opReg op => cases op <;> cases hsw
      | amo op => cases op <;> cases hsw
      | csr op => cases op <;> cases hsw
      | _ => cases hsw
    change t.access cfg.platform (.store .sw) 0 (t.registers r1 + imm.signExtend 32)
      (t.registers r2) = some v at hv
    unfold State.access at hv
    split at hv
    · rename_i hcheck
      obtain ⟨halign, hlow, hhigh⟩ := hcheck
      have hsetup := (h.setup hruns rfl rfl (n := 4) (dvd_refl 4) halign 6).2
      obtain ⟨rfl, -⟩ := EStateM.Result.ok.inj (hsetup.symm.trans ha)
      change _ + ((4 : Nat) : Int) ≤ cfg.ramEnd at hhigh
      exact Or.inl ⟨hlow, by omega⟩
    · cases hv

theorem Refines.storesOk {x : FetchTrace} (h : Refines cfg x t) (e : Event) :
    StoresOk cfg x.machine e := by
  have hpoint := h.point
  unfold StoresOk
  cases e with
  | step =>
      cases hp : x.machine.point with
      | execute d rs1 rs2 =>
          rw [hp] at hpoint
          obtain ⟨hd, i, v, hruns, -, hv⟩ := hpoint
          exact hd.storeOk hruns hv
      | _ => trivial
  | _ => trivial

theorem fireInterrupts_of_disabled (h : s.csrMie = 0) :
    fireInterrupts cfg s = (.main, loweredHart s) := by
  have hnone : opAnd (loweredHart s).csrMip s.csrMie = 0 := by
    rw [h]
    exact opAnd_eq_zero.mpr fun i _ => by simp [bit, long]
  unfold fireInterrupts
  exact if_pos hnone

/-- The point after a step of the worker, of no step of the architecture or of one. -/
theorem Refines.pointStep {x : FetchTrace} (h : Refines cfg x t)
    (hflat : ∀ r, (x.machine.resolved cfg).or x.resolved = some r → r.Flat)
    (hcan : ∃ u, Step cfg.platform t u) :
    (PointShows cfg t (x.machine.step cfg).point (x.machine.step cfg).hart ∧
        x.machine.point.rank + 1 ≤ (x.machine.step cfg).point.rank) ∨
      ∃ u, Step cfg.platform t u ∧
      PointShows cfg u (x.machine.step cfg).point (x.machine.step cfg).hart ∧
        x.machine.point.rank + 1 ≤ (x.machine.step cfg).point.rank + 5 := by
  obtain ⟨⟨hsound, hcoherent, htracks⟩, -, hpoint⟩ := h
  change (PointShows cfg t (stepPoint cfg x.machine.point x.machine.hart).1
    (stepPoint cfg x.machine.point x.machine.hart).2 ∧
      x.machine.point.rank + 1 ≤ (stepPoint cfg x.machine.point x.machine.hart).1.rank) ∨
    ∃ u, Step cfg.platform t u ∧
      PointShows cfg u (stepPoint cfg x.machine.point x.machine.hart).1
        (stepPoint cfg x.machine.point x.machine.hart).2 ∧
      x.machine.point.rank + 1 ≤ (stepPoint cfg x.machine.point x.machine.hart).1.rank + 5
  cases hp : x.machine.point with
  | pollInterrupts =>
      rw [hp] at hpoint
      exact Or.inl ⟨⟨hpoint.1.of_visible rfl rfl, hpoint.2⟩, le_rfl⟩
  | fireInterrupts =>
      rw [hp] at hpoint
      rw [stepPoint, fireInterrupts_of_disabled hpoint.1.csrMie]
      exact Or.inl ⟨⟨hpoint.1.of_visible rfl rfl, hpoint.2⟩, le_rfl⟩
  | main =>
      rw [hp] at hpoint htracks
      obtain ⟨u, i, v, hfetch, hexecute, -⟩ := hcan
      obtain ⟨d, s', hx, hruns, hd⟩ := hpoint.1.fetch hpoint.2 hsound hcoherent htracks hflat hp hfetch
      rw [stepPoint, hx]
      exact Or.inl ⟨⟨hd, i, v, hruns, hfetch, hexecute⟩, le_rfl⟩
  | execute d rs1 rs2 =>
      rw [hp] at hpoint
      obtain ⟨hd, i, v, hruns, hfetch, hexecute⟩ := hpoint
      obtain ⟨e, s', hx, hends⟩ := hd.execute hsound.hart.incr hruns hexecute
      rw [stepPoint, hx]
      exact Or.inl ⟨⟨v, ⟨i, v, hfetch, hexecute, rfl⟩, hends⟩, le_rfl⟩
  | ending e =>
      rw [hp] at hpoint
      obtain ⟨v, hstep, hends⟩ := hpoint
      exact Or.inr ⟨v.retire, hstep, hends.finish, Nat.le_add_left 5 _⟩
  | trap =>
      rw [hp] at hpoint
      exact hpoint.elim
  | reset =>
      rw [hp] at hpoint
      exact hpoint.elim
  | lost =>
      rw [hp] at hpoint
      exact hpoint.elim

theorem PointShows.event {m : Machine} (h : PointShows cfg t m.point m.hart) {e : Event}
    (hstep : e ≠ .step) (hreset : e ≠ .reset) :
    PointShows cfg t (m.apply cfg e).point (m.apply cfg e).hart ∧ (m.apply cfg e).point = m.point := by
  cases e with
  | step => exact absurd rfl hstep
  | reset => exact absurd rfl hreset
  | device => exact ⟨h.frame rfl rfl rfl rfl rfl, rfl⟩
  | tick delta =>
      rw [Machine.apply]
      split
      · exact ⟨h.frame rfl rfl rfl rfl rfl, rfl⟩
      · exact ⟨h, rfl⟩
  | handOff =>
      rw [Machine.apply]
      split
      · refine ⟨?_, rfl⟩
        change PointShows cfg t m.point (incrementMcycle cfg m.hart)
        unfold incrementMcycle
        dsimp only
        split
        · exact h.frame rfl rfl rfl rfl rfl
        · refine h.frame ?_ (writeCsr_memState { m.hart with csrMcycle := 0 } mcyclehCsr _) rfl rfl rfl
          exact congrArg (fun n => ((m.hart.registers, m.hart.privilegeMode,
            m.hart.effectivePrivilegeMode), m.hart.csrMie,
            m.hart.csrMinstret, n)) (writeCsr_csr { m.hart with csrMcycle := 0 } (by decide) _)
      · exact ⟨h, rfl⟩

/-! ## Runs -/

/-- The number of steps that an event is of the worker. -/
def Event.steps : Event → Nat
  | .step => 1
  | _ => 0

theorem refines_apply (cfg : Config) (x : FetchTrace) (e : Event) (t : State) (h : Refines cfg x t)
    (he : e ≠ .reset) (hcan : ∃ u, Step cfg.platform t u) :
    (Refines cfg (x.apply cfg e) t ∧ x.machine.point.rank + e.steps ≤
      (x.apply cfg e).machine.point.rank) ∨
      ∃ u, Step cfg.platform t u ∧ Refines cfg (x.apply cfg e) u ∧
        x.machine.point.rank + e.steps ≤ (x.apply cfg e).machine.point.rank + 5 := by
  have htracks := h.tracks.apply e (h.storesOk e)
  by_cases hstep : e = .step
  · subst hstep
    have hflat : ∀ r, (x.machine.resolved cfg).or x.resolved = some r → r.Flat := by
      intro r hr
      rcases Option.or_eq_some_iff.mp hr with hr | ⟨-, hr⟩
      · refine Machine.resolved_flat ?_ hr
        have hmain : x.machine.point = .main := by
          unfold Machine.resolved at hr
          split at hr
          · assumption
          · cases hr
        have hpc := (h.boundary (by rw [hmain]; rfl)).2
        have hlt := t.pc.isLt
        omega
      · exact h.flat r hr
    rcases h.pointStep hflat hcan with ⟨hpoint, hrank⟩ | ⟨u, hu, hpoint, hrank⟩
    · exact Or.inl ⟨⟨htracks, hflat, hpoint⟩, hrank⟩
    · exact Or.inr ⟨u, hu, ⟨htracks, hflat, hpoint⟩, hrank⟩
  · obtain ⟨hpoint, heq⟩ := h.point.event hstep he
    have hresolved : (x.apply cfg e).resolved = x.resolved := by
      cases e with
      | step => exact absurd rfl hstep
      | _ => rfl
    have hsteps : e.steps = 0 := by
      cases e with
      | step => exact absurd rfl hstep
      | _ => rfl
    refine Or.inl ⟨⟨htracks, fun r hr => h.flat r (hresolved ▸ hr), hpoint⟩, ?_⟩
    rw [hsteps]
    exact (congrArg Point.rank heq).ge

/-- A reset leaves the hart in the first state of the architecture, with RAM as it was. -/
theorem refines_reset {m : Machine}
    (hm : (∃ uarts, m = Machine.powerOn cfg uarts) ∨ Reaches cfg (StoresOk cfg) m) :
    Refines cfg { machine := m.reset cfg, resolved := none }
      (State.initial (ramBytes cfg m.hart.procs)) := by
  have hreset : SoundMachine cfg (m.reset cfg) ∧ Coherent cfg (m.reset cfg).hart := by
    rcases hm with ⟨uarts, rfl⟩ | hm
    · exact ⟨soundMachine_start cfg uarts, coherent_start cfg uarts⟩
    · obtain ⟨hsound, hcoherent⟩ := hm.coherent fun _ _ h => h
      exact ⟨hsound.reset, hcoherent.reset _⟩
  refine ⟨⟨hreset.1, hreset.2, Or.inl rfl⟩, by rintro r ⟨⟩, ?_, rfl⟩
  refine ⟨fun r => ?_, ?_, rfl, rfl, rfl, ⟨le_rfl, (by decide : (0 : Int) < 2 ^ 32)⟩, ?_⟩
  · have hlt := r.isLt
    exact if_pos ⟨by omega, by omega⟩
  · have hbytes : ramBytes cfg (m.reset cfg).hart.procs = ramBytes cfg m.hart.procs :=
      ramBytes_congr fun _ ht => funext (resetHart_procs_of_ne m.hart _ ht)
    rw [memState, hbytes]
    rfl
  · have hzero : resetCsr minstrethCsr = some (.num 0) := by decide
    have hcsr : (m.reset cfg).hart.csr cfg minstrethCsr = 0 := by
      rw [Hart.csr, Machine.reset, resetHart_csrs, hzero]
      rfl
    rw [hcsr]
    rfl

theorem FetchTrace.foldl_machine (cfg : Config) (es : List Event) (x : FetchTrace) :
    (es.foldl (FetchTrace.apply cfg) x).machine = x.machine.run cfg es := by
  induction es generalizing x with
  | nil => rfl
  | cons e es ih => exact ih _

/-- Let the program in ROM and RAM be one that the architecture runs for `n` instructions in machine
mode, without a trap and without an access outside of ROM and RAM. Then every run of the worker
after a reset is the run of the program, up to a prefix that has executed all `n` instructions: at
each point the hart shows the state of the architecture. An instruction takes five steps of the
worker at most. -/
theorem worker_refines {m : Machine}
    (hm : (∃ uarts, m = Machine.powerOn cfg uarts) ∨ Reaches cfg (StoresOk cfg) m) {n : Nat}
    (hprogram : Progresses (Step cfg.platform) (State.initial (ramBytes cfg m.hart.procs)) n)
    {es : List Event} (hes : ∀ e ∈ es, e ≠ .reset) :
    ∃ i k t, i ≤ es.length ∧ k ≤ n ∧ (k < n → i = es.length) ∧
      StepsTo (Step cfg.platform) (State.initial (ramBytes cfg m.hart.procs)) k t ∧
      totalWork Event.steps (es.take i) ≤ 5 * k + 4 ∧
      PointShows cfg t ((m.reset cfg).run cfg (es.take i)).point
        ((m.reset cfg).run cfg (es.take i)).hart := by
  obtain ⟨i, k, t, hi, hk, hend, hsteps, hrefines, hrank⟩ :=
    simulates (refines_apply cfg) (refines_reset hm) hprogram es hes
  have hmachine := FetchTrace.foldl_machine cfg (es.take i) { machine := m.reset cfg, resolved := none }
  have hpoint := hrefines.point
  have hle (p : Point) : p.rank ≤ 4 := by
    unfold Point.rank
    split <;> omega
  have hbound := hle ((es.take i).foldl (FetchTrace.apply cfg)
    { machine := m.reset cfg, resolved := none }).machine.point
  rw [hmachine] at hpoint
  refine ⟨i, k, t, hi, hk, hend, hsteps, ?_, hpoint⟩
  have hzero : (m.reset cfg).point.rank = 0 := rfl
  omega

/-! ## An endless program -/

/-- `lui x1, 0x80000`, `amoadd.w x2, x1, (x1)` and `jal x0, -4`: count in the first word of RAM. -/
def countCode : List Nat := [0x800000b7, 0x0010a12f, 0xffdff06f]

def countBuild : Config := smallBuild (romOfWords countCode)

def countMachine : Machine := Machine.powerOn countBuild fun _ _ => 0

/-- The states of the program. -/
def Counting (t : State) : Prop := t.pc = 0 ∨ (t.pc = 4 ∨ t.pc = 8) ∧ t.registers 1 = 0x80000000

theorem count_read {k : Nat} (hk : k < 3) (ht : t.pc.toNat = 4 * k) :
    t.read countBuild.platform t.pc 4 = some countCode[k]! := by
  have hcode : ∀ k < 3, countBuild.platform.InRom (4 * k : Nat) 4 ∧
      (loadRomWordUnchecked countBuild (4 * k : Nat)).toNat / 256 ^
        (((4 * k : Nat) : Int) % 4).toNat % 256 ^ 4 = countCode[k]! ∧
      ((4 * k : Nat) : Int) < countBuild.romSize := by
    decide +kernel
  obtain ⟨hin, hword, hlt⟩ := hcode k hk
  have hread := @read_romBytes countBuild (4 * k : Nat) 4 ⟨Int.natCast_nonneg _, hlt⟩ (by omega)
  rw [State.read, ht, if_pos hin]
  exact congrArg some (hread.trans hword)

/-- The labels of the three instructions belong to one form each. -/
theorem instr_of_label (i : Instr) :
    (handlerLabel i = .LUI → ∃ rd imm, i = .lui rd imm) ∧
    (handlerLabel i = .AMOADD_W → ∃ order rd rs1 rs2, i = .amo .amoadd order rd rs1 rs2) ∧
    (handlerLabel i = .JAL → ∃ rd imm, i = .jal rd imm) := by
  cases i with
  | lui rd imm => exact ⟨fun _ => ⟨rd, imm, rfl⟩, by rintro ⟨⟩, by rintro ⟨⟩⟩
  | jal rd imm => exact ⟨by rintro ⟨⟩, by rintro ⟨⟩, fun _ => ⟨rd, imm, rfl⟩⟩
  | amo op order rd rs1 rs2 =>
      cases op with
      | amoadd => exact ⟨by rintro ⟨⟩, fun _ => ⟨order, rd, rs1, rs2, rfl⟩, by rintro ⟨⟩⟩
      | _ => exact ⟨by rintro ⟨⟩, by rintro ⟨⟩, by rintro ⟨⟩⟩
  | branch op => cases op <;> exact ⟨by rintro ⟨⟩, by rintro ⟨⟩, by rintro ⟨⟩⟩
  | load op => cases op <;> exact ⟨by rintro ⟨⟩, by rintro ⟨⟩, by rintro ⟨⟩⟩
  | store op => cases op <;> exact ⟨by rintro ⟨⟩, by rintro ⟨⟩, by rintro ⟨⟩⟩
  | opImm op => cases op <;> exact ⟨by rintro ⟨⟩, by rintro ⟨⟩, by rintro ⟨⟩⟩
  | shiftImm op => cases op <;> exact ⟨by rintro ⟨⟩, by rintro ⟨⟩, by rintro ⟨⟩⟩
  | opReg op => cases op <;> exact ⟨by rintro ⟨⟩, by rintro ⟨⟩, by rintro ⟨⟩⟩
  | csr op => cases op <;> exact ⟨by rintro ⟨⟩, by rintro ⟨⟩, by rintro ⟨⟩⟩
  | _ => exact ⟨by rintro ⟨⟩, by rintro ⟨⟩, by rintro ⟨⟩⟩

/-- What the decoder finds in a word of the program determines the instruction. -/
theorem Counting.execute (h : Counting t) {i : Instr} (hfetch : t.Fetches countBuild.platform i) :
    ∃ v, t.execute countBuild.platform i = some v ∧ Counting v := by
  have hruns := slowFetch_runs i 0
  obtain ⟨hlui, hamo, hjal⟩ := instr_of_label i
  have hword {k : Nat} (hk : k < 3) (ht : t.pc.toNat = 4 * k) : i.encode.toNat = countCode[k]! :=
    (Option.some.inj ((count_read hk ht).symm.trans hfetch.2)).symm
  rcases h with hpc | ⟨hpc | hpc, hx1⟩
  · rw [hword (k := 0) (by decide) (by rw [hpc]; rfl)] at hruns
    obtain ⟨rd, imm, rfl⟩ := hlui (Option.some.inj (hruns.label.symm.trans (by decide +kernel)))
    obtain rfl : rd = 1 := reg_toNat_inj ((hruns.rd rd rfl).symm.trans (by decide +kernel))
    have himm : imm ++ 0#12 = (0x80000000 : Word) :=
      BitVec.eq_of_toNat_eq (Int.natCast_inj.mp ((hruns.imm _ rfl).symm.trans (by decide +kernel)))
    refine ⟨(t.set 1 (imm ++ 0#12)).next, rfl, Or.inr ⟨Or.inl ?_, himm⟩⟩
    change t.pc + 4 = 4
    rw [hpc]
    rfl
  · rw [hword (k := 1) (by decide) (by rw [hpc]; rfl)] at hruns
    obtain ⟨order, rd, rs1, rs2, rfl⟩ :=
      hamo (Option.some.inj (hruns.label.symm.trans (by decide +kernel)))
    obtain rfl : rd = 2 := reg_toNat_inj ((hruns.rd rd rfl).symm.trans (by decide +kernel))
    obtain rfl : rs1 = 1 := reg_toNat_inj ((hruns.rs1 rs1 rfl).symm.trans (by decide +kernel))
    refine ⟨_, if_pos ?_, Or.inr ⟨Or.inr ?_, hx1⟩⟩
    · rw [hx1]
      decide +kernel
    · change t.pc + 4 = 8
      rw [hpc]
      rfl
  · rw [hword (k := 2) (by decide) (by rw [hpc]; rfl)] at hruns
    obtain ⟨rd, imm, rfl⟩ := hjal (Option.some.inj (hruns.label.symm.trans (by decide +kernel)))
    obtain rfl : rd = 0 := reg_toNat_inj ((hruns.rd rd rfl).symm.trans (by decide +kernel))
    have himm : (imm ++ 0#1).signExtend 32 = (0xfffffffc : Word) :=
      BitVec.eq_of_toNat_eq (Int.natCast_inj.mp ((hruns.imm _ rfl).symm.trans (by decide +kernel)))
    refine ⟨{ t with pc := 4 }, ?_, Or.inr ⟨Or.inl rfl, hx1⟩⟩
    change (t.set 0 (t.pc + 4)).goto (t.pc + (imm ++ 0#1).signExtend 32) = _
    rw [State.set_zero, himm, hpc]
    rfl

theorem Counting.fetches (h : Counting t) : ∃ i, t.Fetches countBuild.platform i := by
  have hfetch {k : Nat} (hk : k < 3) (ht : t.pc.toNat = 4 * k) {i : Instr}
      (hi : i.encode.toNat = countCode[k]!) :
      t.Fetches countBuild.platform i := ⟨by omega, by rw [count_read hk ht, hi]⟩
  rcases h with hpc | ⟨hpc | hpc, -⟩
  · exact ⟨.lui 1 0x80000, hfetch (k := 0) (by decide) (by rw [hpc]; rfl) rfl⟩
  · exact ⟨.amo .amoadd 0 2 1 1, hfetch (k := 1) (by decide) (by rw [hpc]; rfl) rfl⟩
  · exact ⟨.jal 0 0xffffe, hfetch (k := 2) (by decide) (by rw [hpc]; rfl) rfl⟩

theorem count_progresses (bytes : Memory) (n : Nat) :
    Progresses (Step countBuild.platform) (State.initial bytes) n := by
  have hcounting {k : Nat} {u : State}
      (h : StepsTo (Step countBuild.platform) (State.initial bytes) k u) : Counting u := by
    induction h with
    | zero => exact Or.inl rfl
    | succ _ hstep ih =>
        obtain ⟨i, v, hfetch, hexecute, rfl⟩ := hstep
        obtain ⟨v', hv', hcounting⟩ := ih.execute hfetch
        obtain rfl : v' = v := Option.some.inj (hv'.symm.trans hexecute)
        exact hcounting
  intro k u _ h
  obtain ⟨i, hfetch⟩ := (hcounting h).fetches
  obtain ⟨v, hexecute, -⟩ := (hcounting h).execute hfetch
  exact ⟨v.retire, i, v, hfetch, hexecute, rfl⟩

/-- Steps of a worker, a tick, and steps of the worker that takes over. -/
def countEvents : List Event :=
  List.replicate 50 .step ++ [.tick 1, .handOff] ++ List.replicate 50 .step

theorem worker_refines_count :
    ∃ i k t, i ≤ countEvents.length ∧ k ≤ 100 ∧ (k < 100 → i = countEvents.length) ∧
      StepsTo (Step countBuild.platform)
        (State.initial (ramBytes countBuild countMachine.hart.procs)) k t ∧
      totalWork Event.steps (countEvents.take i) ≤ 5 * k + 4 ∧
      PointShows countBuild t ((countMachine.reset countBuild).run countBuild (countEvents.take i)).point
        ((countMachine.reset countBuild).run countBuild (countEvents.take i)).hart := by
  refine worker_refines (Or.inl ⟨_, rfl⟩) (count_progresses _ 100) fun e he => ?_
  simp only [countEvents, List.mem_append, List.mem_replicate, List.mem_cons,
    List.not_mem_nil, or_false] at he
  rcases he with (⟨-, rfl⟩ | rfl | rfl) | ⟨-, rfl⟩ <;> rintro ⟨⟩

end Mlogv32.Cpu
