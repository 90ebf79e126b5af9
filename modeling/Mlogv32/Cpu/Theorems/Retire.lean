import Mlogv32.Cpu.Lemmas.System

/-!
# Retired instructions

minstret counts the instructions that complete without a trap: the handler of such an instruction
ends at a label that adds 1, and nothing else changes the counter.
-/

namespace Mlogv32.Cpu
open Mlog Logic Isa

variable {cfg : Config} {s : Hart}

def minstretCsr : Nat := 0xb02

/-! ## The counter -/

/-- The counter as one number. -/
def Hart.instret (cfg : Config) (s : Hart) : Int := s.csr cfg minstrethCsr * 2 ^ 32 + s.csrMinstret

/-- The halves of the counter are as before. -/
structure InstretFrame (cfg : Config) (s s' : Hart) : Prop where
  low : s'.csrMinstret = s.csrMinstret
  high : s'.csr cfg minstrethCsr = s.csr cfg minstrethCsr

theorem InstretFrame.refl (cfg : Config) (s : Hart) : InstretFrame cfg s s := ⟨rfl, rfl⟩

theorem InstretFrame.trans {s' s'' : Hart} (h : InstretFrame cfg s s') (h' : InstretFrame cfg s' s'') :
    InstretFrame cfg s s'' := ⟨h'.low.trans h.low, h'.high.trans h.high⟩

theorem InstretFrame.of_csrs {s' : Hart} (hlow : s'.csrMinstret = s.csrMinstret)
    (hcsrs : s'.procs cfg.csrs = s.procs cfg.csrs) : InstretFrame cfg s s' :=
  ⟨hlow, by rw [Hart.csr, hcsrs, Hart.csr]⟩

theorem InstretFrame.writeCsr (s : Hart) {n : Nat} (hn : minstrethCsr ≠ n) (x : Int) :
    InstretFrame cfg s (s.writeCsr cfg (.var n) x) := ⟨rfl, writeCsr_csr s hn x⟩

theorem InstretFrame.instret {s' : Hart} (h : InstretFrame cfg s s') :
    s'.instret cfg = s.instret cfg := by
  rw [Hart.instret, Hart.instret, h.low, h.high]

theorem LoadFrame.instret {s' : Hart} (h : LoadFrame s s') : InstretFrame cfg s s' := by
  obtain ⟨_, _, _, rfl, _⟩ := h
  exact ⟨rfl, rfl⟩

theorem incrementInstret_instret (h : s.csrMinstret < 2 ^ 32) :
    (incrementInstret cfg s).instret cfg = s.instret cfg + 1 ∧
    (incrementInstret cfg s).csrMinstret < 2 ^ 32 := by
  rw [incrementInstret]
  split
  · rename_i hlt
    refine ⟨?_, by dsimp only; omega⟩
    unfold Hart.instret
    dsimp only
    change s.csr cfg minstrethCsr * 2 ^ 32 + _ = _
    omega
  · rename_i hge
    refine ⟨?_, (by decide : (0 : Int) < 2 ^ 32)⟩
    have hhigh : Hart.csr cfg _ minstrethCsr = s.csr cfg minstrethCsr + 1 :=
      writeCsr_csr_self { s with csrMinstret := 0 } minstrethCsr (s.csr cfg minstrethCsr + 1)
    rw [Hart.instret, hhigh, Hart.instret]
    change (s.csr cfg minstrethCsr + 1) * 2 ^ 32 + 0 = _
    omega

/-! ## Instructions -/

/-- The instruction writes a half of the counter. -/
def WritesInstret (label : Label) (d : Fetched) (rs1 : Int) : Prop :=
  ∃ op x, csrOperand d rs1 label = some (op, x) ∧ ¬op.readsOnly d ∧
  (d.imm = minstretCsr ∨ d.imm = minstrethCsr)

theorem csrEntry_instret (n : Nat) : ((csrEntry n).write = .minstret → n = minstretCsr) ∧
    ((csrEntry n).write = .minstreth → n = minstrethCsr) := by
  have hall : ∀ e ∈ csrEntries, (e.write = .minstret → e.number = minstretCsr) ∧
      (e.write = .minstreth → e.number = minstrethCsr) := by decide +kernel
  have hentry :=
    csrEntry_of_forall (n := n) (p := fun e => (e.write = .minstret → e.number = minstretCsr) ∧
    (e.write = .minstreth → e.number = minstrethCsr)) (fun e he _ => hall e he) ⟨nofun, nofun⟩
  rwa [csrEntry_number] at hentry

theorem csrWriteHart_instret {n : Nat} (hlow : n ≠ minstretCsr) (hhigh : n ≠ minstrethCsr) (x : Int)
    (s : Hart) :
    InstretFrame cfg s (csrWriteHart cfg (.var n) x s (csrEntry n).write) := by
  obtain ⟨hl, hh⟩ := csrEntry_instret n
  cases hw : (csrEntry n).write with
  | minstret => exact absurd (hl hw) hlow
  | minstreth => exact absurd (hh hw) hhigh
  | csrs => exact .writeCsr s (Ne.symm hhigh) x
  | satp =>
      have h : InstretFrame cfg _ _ := .writeCsr { s with icacheVar := .null } (Ne.symm hhigh) x
      exact ⟨h.low, h.high⟩
  | _ => exact .of_csrs rfl rfl

theorem csrWriteHart_csrMinstret (csrVar : Value) {x : Int} (hx : x < 2 ^ 32) {s : Hart}
    (h : s.csrMinstret < 2 ^ 32) (w : CsrWrite) :
    (csrWriteHart cfg csrVar x s w).csrMinstret < 2 ^ 32 := by
  cases w with
  | minstret =>
      change x - 1 < 2 ^ 32
      omega
  | minstreth =>
      change s.csrMinstret - 1 < 2 ^ 32
      omega
  | _ => exact h

/-- An instruction leaves the counter alone until it ends, unless it writes it. -/
theorem Effect.instret {label : Label} {d : Fetched} {rs1 rs2 : Int} {e : End} {s' : Hart}
    (h : Effect cfg label d rs1 rs2 s e s') (hs : Sound cfg s) :
    InstretFrame cfg s s' ∨
      (WritesInstret label d rs1 ∧ (s.csrMinstret < 2 ^ 32 → s'.csrMinstret < 2 ^ 32)) := by
  cases h with
  | compute => exact Or.inl (.refl cfg s)
  | pass => exact Or.inl (.refl cfg s)
  | jump => exact Or.inl (.of_csrs rfl rfl)
  | load h => exact Or.inl h.instret
  | reserve h => exact Or.inl (h.instret.trans (.of_csrs rfl rfl))
  | @storeRam s₁ r address value _ _ h ha =>
      refine Or.inl (h.instret.trans
        (.of_csrs ?_ (storedRam_csrs { s₁ with reservationSet := r } ha.1 value)))
      unfold storedRam
      split <;> rfl
  | storeSyscon h => exact Or.inl h.instret
  | storeMmio _ _ h _ _ hx =>
      refine Or.inl ((h.1.trans h.2).instret.trans ?_)
      rcases storeMmio_frame hx with ⟨-, _, _, rfl⟩ | ⟨-, _, _, _, _, rfl, -⟩
      · exact .of_csrs rfl rfl
      · exact .of_csrs rfl rfl
  | sret => exact Or.inl (.of_csrs rfl rfl)
  | mret => exact Or.inl (.of_csrs rfl rfl)
  | sfence => exact Or.inl (.of_csrs rfl rfl)
  | csrRead => exact Or.inl (.refl cfg s)
  | @csrWrite op x rd hop himm hmode hread hwrites hlegal =>
      have himm' : ((d.imm.toNat : Nat) : Int) = d.imm := Int.toNat_of_nonneg himm.1
      by_cases hn : d.imm = minstretCsr ∨ d.imm = minstrethCsr
      · have hword := masked_word op d.imm.toNat x rd
        exact Or.inr ⟨⟨op, x, hop, hwrites, hn⟩, fun h => csrWriteHart_csrMinstret _ hword.2 h _⟩
      · obtain ⟨hlow, hhigh⟩ := not_or.mp hn
        exact Or.inl (csrWriteHart_instret (fun h => hlow (by rw [← himm', h])) (fun h =>
          hhigh (by rw [← himm', h])) _ s)
  | mlogsys =>
      obtain ⟨imm, procs, heq, hprocs⟩ := mlogsysHart_frame hs.incr rs1
      rw [heq]
      exact Or.inl (.of_csrs rfl hprocs)

/-! ## Steps -/

/-- The end adds 1 to the counter if the instruction retires. -/
theorem finish_instret (h : s.csrMinstret < 2 ^ 32) (e : End) :
    (finish cfg s e).2.instret cfg = s.instret cfg + (if e.retires then 1 else 0) ∧
      (finish cfg s e).2.csrMinstret < 2 ^ 32 := by
  cases hretires : e.retires with
  | false =>
      cases e with
      | reset => exact ⟨(add_zero _).symm, h⟩
      | lost => exact ⟨(add_zero _).symm, h⟩
      | _ => cases hretires
  | true =>
      have hrd : InstretFrame cfg s (writeRd { s with csrMip := e.raise s.csrMip } e.rdId e.rd) := by
        unfold writeRd
        split
        · exact .of_csrs rfl rfl
        · exact .of_csrs rfl rfl
      have hcount : Hart.instret cfg (incrementInstret cfg _) = _ ∧ _ :=
        incrementInstret_instret (hrd.low.trans_lt h)
      rw [hrd.instret] at hcount
      rw [finish_eq cfg s hretires, endInstructionTrap_snd]
      exact hcount

theorem finish_point (cfg : Config) (s : Hart) (e e' : End) : (finish cfg s e).1 ≠ .ending e' := by
  cases hretires : e.retires with
  | false =>
      cases e with
      | reset => exact nofun
      | lost => exact nofun
      | _ => cases hretires
  | true =>
      rw [finish_eq cfg s hretires, endInstructionTrap_fst]
      split_ifs <;> exact nofun

theorem trapCheckMxdeleg_instret (cfg : Config) (mxdeleg : Int) (t : Trap) (s : Hart) :
    InstretFrame cfg s (trapCheckMxdeleg cfg mxdeleg t s).2 ∧ ∀ e,
    (trapCheckMxdeleg cfg mxdeleg t s).1 ≠ .ending e := by
  obtain ⟨c, mode, mstatus, e, hc, heq⟩ := trapCheckMxdeleg_eq cfg mxdeleg t s
  rw [heq]
  have hne : minstrethCsr ≠ c.cause ∧ minstrethCsr ≠ c.tval ∧ minstrethCsr ≠ c.epc := by
    rcases hc with ⟨rfl, -⟩ | ⟨rfl, -⟩ <;> decide
  refine ⟨⟨rfl, congrArg Value.toNum (trapProcs_csr cfg c t s hne)⟩, fun e' => ?_⟩
  dsimp only [trapPoint]
  split_ifs <;> exact nofun

theorem Fetches.instret {d : Fetched} {s' : Hart} (h : Fetches cfg s d s') : InstretFrame cfg s s' := by
  have hload {a : Int} {s₁ : Hart} (ha : fetchAddress cfg (fetchHart s) = .ok a s₁) :
      InstretFrame cfg s s₁ :=
    have hframe : InstretFrame cfg (fetchHart s) s₁ :=
      (wp_ok (fetchAddress_frame cfg (fetchHart s)) ha).1.instret
    ⟨hframe.low, hframe.high⟩
  cases h with
  | cursor => exact .of_csrs rfl rfl
  | icache _ ha => exact (hload ha).trans (.of_csrs rfl rfl)
  | slow _ ha => exact (hload ha).trans (.of_csrs rfl rfl)

/-! ## Runs -/

/-- The event executes an instruction that completes without a trap. -/
def Machine.retires (cfg : Config) (m : Machine) : Event → Bool
  | .step =>
      match m.point with
      | .execute d rs1 rs2 =>
          match execute cfg d rs1 rs2 m.hart with
          | .ok e _ => e.retires
          | .error _ _ => false
      | _ => false
  | _ => false

/-- The event executes an instruction that writes the counter. -/
def Machine.writesInstret (m : Machine) (e : Event) : Prop :=
  e = .step ∧ ∃ d rs1 rs2 label, m.point = .execute d rs1 rs2 ∧ labels (d.opId + 192) = some label ∧
    WritesInstret label d rs1

/-- A machine, and the number of instructions that it has retired in a run. -/
structure RetireTrace where
  machine : Machine
  retired : Nat

def RetireTrace.apply (cfg : Config) (t : RetireTrace) (e : Event) : RetireTrace where
  machine := t.machine.apply cfg e
  retired := if t.machine.retires cfg e then t.retired + 1 else t.retired

/-- The states of a run from `m` with good stores, and without a reset or a write of the counter. -/
abbrev RetireRun (cfg : Config) (m : Machine) : RetireTrace → Prop :=
  Reachable (· = { machine := m, retired := 0 })
    (fun t e => StoresOk cfg t.machine e ∧ e ≠ .reset ∧
      ¬t.machine.writesInstret e) (RetireTrace.apply cfg)

/-- 1 for an instruction that has retired and is not counted yet. -/
def Point.pending : Point → Int
  | .ending e => if e.retires then 1 else 0
  | _ => 0

theorem Point.pending_eq_zero {p : Point} (h : ∀ e, p ≠ .ending e) : p.pending = 0 := by
  cases p with
  | ending e => exact absurd rfl (h e)
  | _ => rfl

/-- What a step of the worker does to the counter and to what is not counted yet. -/
def CountsStep (cfg : Config) (m : Machine) (r : Point × Hart) : Prop :=
  r.2.instret cfg + r.1.pending = m.hart.instret cfg + m.point.pending +
    (if m.retires cfg .step then 1 else 0) ∧
    r.2.csrMinstret < 2 ^ 32

theorem countsStep_of_frame {m : Machine} (hlow : m.hart.csrMinstret < 2 ^ 32) {r : Point × Hart}
    (hframe : InstretFrame cfg m.hart r.2) (hpending : m.point.pending = 0)
    (hpoint : r.1.pending = if m.retires cfg .step then 1 else 0) : CountsStep cfg m r := by
  refine ⟨?_, hframe.low.trans_lt hlow⟩
  rw [hframe.instret, hpoint, hpending]
  ring

theorem SoundMachine.countsStep {m : Machine} (h : SoundMachine cfg m) (hg : StoresOk cfg m .step)
    (hw : ¬m.writesInstret .step) (hlow : m.hart.csrMinstret < 2 ^ 32) :
    CountsStep cfg m (stepPoint cfg m.point m.hart) := by
  have hs := h.hart
  have hquiet (hexecute : ∀ d rs1 rs2, m.point ≠ .execute d rs1 rs2) : m.retires cfg .step = false := by
    rw [Machine.retires]
    cases hpoint : m.point with
    | execute d rs1 rs2 => exact absurd hpoint (hexecute d rs1 rs2)
    | _ => rfl
  have hframe {p : Point} (hpoint : m.point = p) (hexecute : ∀ d rs1 rs2, p ≠ .execute d rs1 rs2)
      (hending : ∀ e, p ≠ .ending e) {r : Point × Hart}
      (hr : InstretFrame cfg m.hart r.2 ∧ ∀ e, r.1 ≠ .ending e) :
      CountsStep cfg m r := by
    refine countsStep_of_frame hlow hr.1 (by rw [hpoint, Point.pending_eq_zero hending]) ?_
    rw [Point.pending_eq_zero hr.2, hquiet (hpoint ▸ hexecute)]
    rfl
  cases hpoint : m.point with
  | pollInterrupts => exact hframe hpoint (by simp) (by simp) ⟨.of_csrs rfl rfl, fun e h => by cases h⟩
  | fireInterrupts =>
      have hlowered : InstretFrame cfg m.hart (loweredHart m.hart) := .of_csrs rfl rfl
      rw [stepPoint]
      rcases fireInterrupts_cases cfg m.hart with heq | ⟨i, heq⟩
      · rw [heq]
        exact hframe hpoint (by simp) (by simp) ⟨hlowered, fun e h => by cases h⟩
      · rw [heq]
        have htrap := trapCheckMxdeleg_instret cfg (m.hart.csr cfg midelegCsr)
          (interruptTrap i) (loweredHart m.hart)
        exact hframe hpoint (by simp) (by simp) ⟨hlowered.trans htrap.1, htrap.2⟩
  | main =>
      have hfetch := fetch_correct cfg m.hart
      rw [stepPoint]
      cases hx : fetch cfg m.hart with
      | ok d s' =>
          obtain ⟨d', rfl, hd⟩ := wp_ok hfetch hx hs
          exact hframe hpoint (by simp) (by simp) ⟨hd.instret, fun e h => by cases h⟩
      | error t s' =>
          obtain ⟨hload, -⟩ := wp_error hfetch hx
          have hframe' : InstretFrame cfg _ _ := hload.instret
          exact hframe hpoint (by simp) (by simp) ⟨⟨hframe'.low, hframe'.high⟩, fun e h => by cases h⟩
  | execute d rs1 rs2 =>
      have hpending : m.point.pending = 0 := by rw [hpoint]; rfl
      rw [stepPoint]
      cases hx : execute cfg d rs1 rs2 m.hart with
      | ok e s' =>
          have hretires : m.retires cfg .step = e.retires := by
            rw [Machine.retires, hpoint]
            dsimp only
            rw [hx]
          obtain ⟨label, hlabel, heffect⟩ := execute_effect (h.ready hpoint hg) hx
          rcases heffect.instret hs with hinstret | ⟨hwrites, -⟩
          · exact countsStep_of_frame hlow hinstret hpending (by rw [hretires]; rfl)
          · exact absurd ⟨rfl, d, rs1, rs2, label, hpoint, hlabel, hwrites⟩ hw
      | error t s' =>
          have hretires : m.retires cfg .step = false := by
            rw [Machine.retires, hpoint]
            dsimp only
            rw [hx]
          obtain ⟨label, -, hload, -⟩ := execute_raises hx
          exact countsStep_of_frame hlow hload.instret hpending (by rw [hretires]; rfl)
  | ending e =>
      obtain ⟨hcount, hlow'⟩ : (finish cfg m.hart e).2.instret cfg = _ ∧ _ := finish_instret hlow e
      refine ⟨?_, hlow'⟩
      rw [stepPoint, hcount, Point.pending_eq_zero (finish_point cfg m.hart e), hpoint,
        hquiet (by simp [hpoint])]
      rfl
  | trap t => exact hframe hpoint (by simp) (by simp) (trapCheckMxdeleg_instret cfg _ t m.hart)
  | reset => exact hframe hpoint (by simp) (by simp) ⟨.refl cfg m.hart, fun e h => by cases h⟩
  | lost => exact hframe hpoint (by simp) (by simp) ⟨.refl cfg m.hart, fun e h => by cases h⟩

theorem Machine.apply_instret (cfg : Config) (m : Machine) {e : Event} (hstep : e ≠ .step)
    (hreset : e ≠ .reset) :
    InstretFrame cfg m.hart (m.apply cfg e).hart ∧ (m.apply cfg e).point = m.point := by
  cases e with
  | step => exact absurd rfl hstep
  | reset => exact absurd rfl hreset
  | device uarts => exact ⟨.of_csrs rfl rfl, rfl⟩
  | tick delta =>
      rw [Machine.apply]
      split
      · exact ⟨.of_csrs rfl rfl, rfl⟩
      · exact ⟨.refl cfg m.hart, rfl⟩
  | handOff =>
      rw [Machine.apply]
      split
      · refine ⟨?_, rfl⟩
        unfold incrementMcycle
        dsimp only
        split
        · exact .of_csrs rfl rfl
        · have hne : minstrethCsr ≠ mcyclehCsr := by decide
          have hframe : InstretFrame cfg _ _ :=
            .writeCsr { m.hart with csrMcycle := 0 } hne (m.hart.csr cfg mcyclehCsr + 1)
          exact ⟨hframe.low, hframe.high⟩
      · exact ⟨.refl cfg m.hart, rfl⟩

/-- The low half is a word, or one below while its write is not finished. -/
theorem Reaches.csrMinstret {m : Machine} (h : Reaches cfg (StoresOk cfg) m) :
    SoundMachine cfg m ∧ m.hart.csrMinstret < 2 ^ 32 := by
  refine Reachable.invariant (I := fun m => SoundMachine cfg m ∧
    m.hart.csrMinstret < 2 ^ 32) (fun m hm => ?_)
    (fun m e hm hg => ⟨hm.1.apply e hg, ?_⟩) h
  · obtain ⟨uarts, rfl⟩ := hm
    exact ⟨soundMachine_start cfg uarts, (by decide : (0 : Int) < 2 ^ 32)⟩
  · obtain ⟨hs, hlow⟩ := hm
    by_cases hreset : e = .reset
    · subst hreset
      exact (by decide : (0 : Int) < 2 ^ 32)
    · by_cases hstep : e = .step
      · subst hstep
        by_cases hw : m.writesInstret .step
        · obtain ⟨-, d, rs1, rs2, label, hpoint, hlabel, -⟩ := hw
          change (stepPoint cfg m.point m.hart).2.csrMinstret < 2 ^ 32
          rw [hpoint, stepPoint]
          cases hx : execute cfg d rs1 rs2 m.hart with
          | ok e s' =>
              obtain ⟨label', -, heffect⟩ := execute_effect (hs.ready hpoint hg) hx
              rcases heffect.instret hs.hart with hframe | ⟨-, h⟩
              · exact hframe.low.trans_lt hlow
              · exact h hlow
          | error t s' =>
              obtain ⟨label', -, hload, -⟩ := execute_raises hx
              have hframe : InstretFrame cfg _ _ := hload.instret
              exact hframe.low.trans_lt hlow
        · exact (hs.countsStep hg hw hlow).2
      · exact (Machine.apply_instret cfg m hstep hreset).1.low.trans_lt hlow

theorem RetireRun.counted {m : Machine} (hs : SoundMachine cfg m) (hlow : m.hart.csrMinstret < 2 ^ 32)
    {t : RetireTrace} (h : RetireRun cfg m t) :
    SoundMachine cfg t.machine ∧ t.machine.hart.csrMinstret < 2 ^ 32 ∧
      t.machine.hart.instret cfg + t.machine.point.pending = m.hart.instret cfg +
        m.point.pending + t.retired := by
  refine Reachable.invariant (I := fun t : RetireTrace => SoundMachine cfg t.machine ∧
    t.machine.hart.csrMinstret < 2 ^ 32 ∧
    t.machine.hart.instret cfg + t.machine.point.pending = m.hart.instret cfg +
      m.point.pending + t.retired)
    (fun t ht => ?_) (fun t e ht hg => ?_) h
  · subst ht
    exact ⟨hs, hlow, (add_zero _).symm⟩
  · obtain ⟨hs', hlow', hcount⟩ := ht
    obtain ⟨hg, hreset, hw⟩ := hg
    refine ⟨hs'.apply e hg, ?_⟩
    by_cases hstep : e = .step
    · subst hstep
      obtain ⟨hcount', hlow''⟩ := hs'.countsStep hg hw hlow'
      refine ⟨hlow'', ?_⟩
      change (stepPoint cfg t.machine.point t.machine.hart).2.instret cfg +
        (stepPoint cfg t.machine.point t.machine.hart).1.pending = _ +
          ((if t.machine.retires cfg .step then t.retired + 1 else t.retired : Nat) : Int)
      rw [hcount', hcount]
      split <;> push_cast <;> ring
    · obtain ⟨hframe, hpoint⟩ := Machine.apply_instret cfg t.machine hstep hreset
      refine ⟨hframe.low.trans_lt hlow', ?_⟩
      have hretired : (t.apply cfg e).retired = t.retired := by
        cases e <;> first | rfl | exact absurd rfl hstep
      change (t.machine.apply cfg e).hart.instret cfg + (t.machine.apply cfg e).point.pending = _
      rw [hframe.instret, hpoint, hcount, hretired]

/-- In every run whose stores go to mapped addresses and store words, without a reset or a write of
the counter: between two labels that are not the end of an instruction, the counter has grown by the
number of instructions that completed without a trap. These are all that do not trap, but for a
store that halts. -/
theorem retired_counted (cfg : Config) {m : Machine} (h : Reaches cfg (StoresOk cfg) m)
    (hm : ∀ e, m.point ≠ .ending e) {t : RetireTrace} (hrun : RetireRun cfg m t)
    (ht : ∀ e, t.machine.point ≠ .ending e) :
    t.machine.hart.instret cfg = m.hart.instret cfg + t.retired ∧
    (∀ d rs1 rs2 e s', t.machine.point = .execute d rs1 rs2 → StoresOk cfg t.machine .step →
      execute cfg d rs1 rs2 t.machine.hart = .ok e s' → e = .reset ∨
      t.machine.retires cfg .step = true) := by
  obtain ⟨hs, hlow⟩ := h.csrMinstret
  obtain ⟨hs', -, hcount⟩ := hrun.counted hs hlow
  refine ⟨?_, fun d rs1 rs2 e s' hpoint hg hx => ?_⟩
  · rwa [Point.pending_eq_zero ht, Point.pending_eq_zero hm, add_zero, add_zero] at hcount
  · have hp := hs'.point
    rw [hpoint] at hp
    obtain ⟨label, -, heffect⟩ := execute_effect (hs'.ready hpoint hg) hx
    obtain ⟨-, -, hlost⟩ := heffect.sound hs'.hart hp.2
    have hretires : t.machine.retires cfg .step = e.retires := by
      rw [Machine.retires, hpoint]
      dsimp only
      rw [hx]
    rw [hretires]
    cases e with
    | reset => exact Or.inl rfl
    | lost => exact absurd rfl hlost
    | _ => exact Or.inr rfl

/-! ## One addition -/

/-- The worker is not about to execute a CSR instruction. -/
def Point.isCsrFree : Point → Bool
  | .execute d _ _ => (labels (d.opId + 192)).all fun label => label ∉ csrInstructions
  | _ => true

theorem not_writesInstret {m : Machine} (h : m.point.isCsrFree = true) (e : Event) :
    ¬m.writesInstret e := by
  rintro ⟨-, d, rs1, rs2, label, hpoint, hlabel, op, x, hop, -⟩
  have hcsr := csrOperand_mem hop
  rw [hpoint, Point.isCsrFree, hlabel, Option.all_some] at h
  exact of_decide_eq_true h hcsr

/-- `addi x1, x0, 1`. -/
def addiProgram : List Nat := [0x00100093]

/-- The run of `addiProgram` after its first instruction. -/
@[irreducible] def addiTrace : RetireTrace :=
  (List.replicate 5 Event.step).foldl (RetireTrace.apply (smallBuild (romOfWords addiProgram)))
    { machine := Machine.start (smallBuild (romOfWords addiProgram)) fun _ _ => 0, retired := 0 }

theorem retired_counted_addi :
    addiTrace.machine.hart.instret (smallBuild (romOfWords addiProgram)) = 1 := by
  have hstart : Reaches (smallBuild (romOfWords addiProgram))
    (StoresOk (smallBuild (romOfWords addiProgram)))
      (Machine.start (smallBuild (romOfWords addiProgram)) fun _ _ => 0) := .init ⟨_, rfl⟩
  have hfree : ∀ i < 5, ((List.replicate i Event.step).foldl
    (RetireTrace.apply (smallBuild (romOfWords addiProgram)))
      { machine := Machine.start (smallBuild (romOfWords addiProgram)) fun _ _ => 0,
        retired := 0 }).machine.point.isStoreFree
        = true ∧ ((List.replicate i Event.step).foldl
          (RetireTrace.apply (smallBuild (romOfWords addiProgram)))
      { machine := Machine.start (smallBuild (romOfWords addiProgram)) fun _ _ => 0,
        retired := 0 }).machine.point.isCsrFree
        = true := by
    decide +kernel
  have hrun : RetireRun (smallBuild (romOfWords addiProgram))
      (Machine.start (smallBuild (romOfWords addiProgram)) fun _ _ => 0) addiTrace := by
    unfold addiTrace
    have hinit : RetireRun (smallBuild (romOfWords addiProgram))
        (Machine.start (smallBuild (romOfWords addiProgram)) fun _ _ => 0)
        { machine := Machine.start (smallBuild (romOfWords addiProgram)) fun _ _ => 0,
          retired := 0 } := .init rfl
    refine hinit.run (List.replicate 5 Event.step) fun i hi => ?_
    have hi' : i < 5 := by simpa using hi
    have hreplicate : (List.replicate 5 Event.step).take i = List.replicate i Event.step := by
      rw [List.take_replicate, Nat.min_eq_left hi'.le]
    have hevent : (List.replicate 5 Event.step)[i] = Event.step := List.getElem_replicate hi
    obtain ⟨hstore, hcsr⟩ := hfree i hi'
    rw [hreplicate, hevent]
    exact ⟨storesOk_of_isStoreFree .step hstore, nofun, not_writesInstret hcsr .step⟩
  have hpoint : addiTrace.machine.point = .main := by decide +kernel
  have hretired : addiTrace.retired = 1 := by decide +kernel
  have hcount := (retired_counted _ hstart nofun hrun (by rw [hpoint]; exact nofun)).1
  rw [hretired] at hcount
  exact hcount.trans (by decide)

/-! ## A store above RAM -/

/-- `lui x1, 0x80aa7`, and `sw x1, -0x1f8(x1)` to the variable of minstreth in CSRS. -/
def swMinstreth : List Nat := [0x80aa70b7, 0xe010a423]

/-- Two instructions that do not trap, none of them a CSR instruction, and the counter is not 2. -/
theorem swMinstreth_breaks_count :
    ∃ t, t = (List.replicate 8 Event.step).foldl
      (RetireTrace.apply (smallBuild (romOfWords swMinstreth)))
        { machine := Machine.start (smallBuild (romOfWords swMinstreth)) fun _ _ => 0, retired := 0 } ∧
      t.machine.point.isBoundary = true ∧ t.retired = 2 ∧
      t.machine.hart.instret (smallBuild (romOfWords swMinstreth)) % 2 ^ 64 ≠
        ((Machine.start (smallBuild (romOfWords swMinstreth)) fun _ _ => 0).hart.instret
          (smallBuild (romOfWords swMinstreth)) + t.retired) % 2 ^ 64 :=
  ⟨_, rfl, by decide +kernel, by decide +kernel, by decide +kernel⟩

end Mlogv32.Cpu
