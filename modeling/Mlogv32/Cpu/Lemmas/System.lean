import Mlogv32.Cpu.Lemmas.Invariant

/-!
# Who changes the privileged state

The CSRs, the privilege mode and the fields of mstatus and mie change only in a trap, in SRET, MRET
and the writes of CSRs, and in a reset. `SystemStep` lists these steps.
-/

namespace Mlogv32.Cpu
open Mlog Logic Isa

variable {cfg : PageConfig} {s : Hart}

/-! ## Frames -/

/-- The privileged state is as before. Only the high halves of the counters can change in CSRS. -/
structure SystemFrame (cfg : PageConfig) (s s' : Hart) : Prop where
  csr : ∀ n, n ≠ mcyclehCsr → n ≠ minstrethCsr → s'.csr cfg n = s.csr cfg n
  csrMie : s'.csrMie = s.csrMie
  csrMstatus : s'.csrMstatus = s.csrMstatus
  csrStimecmp : s'.csrStimecmp = s.csrStimecmp
  csrStimecmph : s'.csrStimecmph = s.csrStimecmph
  effectivePrivilegeMode : s'.effectivePrivilegeMode = s.effectivePrivilegeMode
  privilegeMode : s'.privilegeMode = s.privilegeMode

theorem SystemFrame.refl (cfg : PageConfig) (s : Hart) :
    SystemFrame cfg s s := ⟨fun _ _ _ => rfl, rfl, rfl, rfl, rfl, rfl, rfl⟩

theorem SystemFrame.trans {s' s'' : Hart} (h : SystemFrame cfg s s') (h' : SystemFrame cfg s' s'') :
    SystemFrame cfg s s'' where
  csr n h₁ h₂ := (h'.csr n h₁ h₂).trans (h.csr n h₁ h₂)
  csrMie := h'.csrMie.trans h.csrMie
  csrMstatus := h'.csrMstatus.trans h.csrMstatus
  csrStimecmp := h'.csrStimecmp.trans h.csrStimecmp
  csrStimecmph := h'.csrStimecmph.trans h.csrStimecmph
  effectivePrivilegeMode := h'.effectivePrivilegeMode.trans h.effectivePrivilegeMode
  privilegeMode := h'.privilegeMode.trans h.privilegeMode

/-- A change outside the privileged state. -/
theorem SystemFrame.of_csrs {s' : Hart} (hcsrs : s'.procs cfg.csrs = s.procs cfg.csrs)
    (hmie : s'.csrMie = s.csrMie) (hmstatus : s'.csrMstatus = s.csrMstatus)
    (hstimecmp : s'.csrStimecmp = s.csrStimecmp) (hstimecmph : s'.csrStimecmph = s.csrStimecmph)
    (heffective : s'.effectivePrivilegeMode = s.effectivePrivilegeMode)
    (hmode : s'.privilegeMode = s.privilegeMode) : SystemFrame cfg s s' :=
  ⟨fun n _ _ => by rw [Hart.csr, hcsrs, Hart.csr], hmie, hmstatus, hstimecmp,
    hstimecmph, heffective, hmode⟩

theorem LoadFrame.system {s' : Hart} (h : LoadFrame s s') : SystemFrame cfg s s' := by
  obtain ⟨_, _, _, rfl, _⟩ := h
  exact .of_csrs rfl rfl rfl rfl rfl rfl rfl

theorem writeCsr_csr (s : Hart) {m n : Nat} (h : m ≠ n) (x : Int) :
    (s.writeCsr cfg (.var n) x).csr cfg m = s.csr cfg m :=
  congrArg Value.toNum (if_neg fun h' => h h'.2)

theorem writeCsr_csr_self (s : Hart) (n : Nat) (x : Int) : (s.writeCsr cfg (.var n) x).csr cfg n = x :=
  congrArg Value.toNum (writeProc_var_self s.procs cfg.csrs n (.num x))

/-- A write of the high half of a counter. -/
theorem SystemFrame.counter (s : Hart) {n : Nat} (hn : n = mcyclehCsr ∨ n = minstrethCsr) (x : Int) :
    SystemFrame cfg s (s.writeCsr cfg (.var n) x) :=
  ⟨fun m h₁ h₂ => writeCsr_csr s (by rcases hn with rfl | rfl; exacts [h₁, h₂]) x,
    rfl, rfl, rfl, rfl, rfl, rfl⟩

/-- A store to RAM leaves CSRS alone. -/
theorem storedRam_csrs (s : Hart) {address : Int} (ha : InRam cfg address) (value : Int) :
    (storedRam cfg s address value).procs cfg.csrs = s.procs cfg.csrs := by
  have hram : InCells cfg (address - ramStart) := by
    obtain ⟨h0, h1⟩ := ha
    unfold PageConfig.ramEnd at h1
    exact ⟨by omega, by omega⟩
  have hprocs : (writeCell cfg s.procs (address - ramStart) (.num (swapEndianness value)))
      cfg.csrs = s.procs cfg.csrs :=
    funext (writeCell_of_ne s.procs _ hram.ne_csrs)
  unfold storedRam
  dsimp only
  split
  · rename_i hic
    obtain ⟨b, hb, hslot, -⟩ := icacheSlot_cell cfg (Or.inr ⟨ha.1, hic⟩)
    dsimp only [decodeToIcache]
    rw [hslot]
    exact (funext (writeCell_of_ne _ _ hb.inCells.ne_csrs)).trans hprocs
  · exact hprocs

theorem storedRam_system (s : Hart) {address : Int} (ha : InRam cfg address) (value : Int) :
    SystemFrame cfg s (storedRam cfg s address value) := by
  refine .of_csrs (storedRam_csrs s ha value) ?_ ?_ ?_ ?_ ?_ ?_
  all_goals
    unfold storedRam
    split <;> rfl

/-! ## Instructions -/

/-- An instruction that changes the privileged state. -/
inductive SystemEffect (cfg : PageConfig) (label : Label) (d : Fetched) (rs1 : Int) (s : Hart) :
    End → Hart → Prop
  | sret (hmode : 1 ≤ s.privilegeMode)
      (htsr : ¬(s.privilegeMode = 0b01 ∧ opAnd s.csrMstatus 0b10000000000000000000000 ≠ 0)) :
      SystemEffect cfg label d rs1 s .endInstruction (sretHart cfg s)
  | mret (hmode : 3 ≤ s.privilegeMode) : SystemEffect cfg label d rs1 s .endInstruction (mretHart cfg s)
  | csrWrite {op : ModifyCsrOp} {x rd : Int} (hop : csrOperand d rs1 label = some (op, x))
      (himm : 0 ≤ d.imm ∧ d.imm < 4096) (hmode : opAnd (opShr d.imm 8) 0b11 ≤ s.privilegeMode)
      (hread : csrRead cfg d.imm (.var d.imm.toNat) (csrEntry d.imm.toNat).read s = .ok rd s)
      (hlegal : (csrEntry d.imm.toNat).write ≠ .ILLEGAL_OP) :
      SystemEffect cfg label d rs1 s (csrWriteEnd d.rdId rd (csrEntry d.imm.toNat).write)
        (csrWriteHart cfg (.var d.imm.toNat) (op.masked (csrEntry d.imm.toNat) x rd) s
          (csrEntry d.imm.toNat).write)

theorem Effect.system {label : Label} {d : Fetched} {rs1 rs2 : Int} {e : End} {s' : Hart}
    (h : Effect cfg label d rs1 rs2 s e s') (hs : Sound cfg s) :
    SystemFrame cfg s s' ∨ SystemEffect cfg label d rs1 s e s' := by
  cases h with
  | compute => exact Or.inl (.refl cfg s)
  | pass => exact Or.inl (.refl cfg s)
  | jump => exact Or.inl (.of_csrs rfl rfl rfl rfl rfl rfl rfl)
  | load h => exact Or.inl h.system
  | reserve h => exact Or.inl (h.system.trans (.of_csrs rfl rfl rfl rfl rfl rfl rfl))
  | @storeRam s₁ r _ _ _ _ h ha =>
      have hr : SystemFrame cfg s₁ { s₁ with reservationSet := r } :=
        .of_csrs rfl rfl rfl rfl rfl rfl rfl
      exact Or.inl ((h.system.trans hr).trans (storedRam_system _ ha.1 _))
  | storeSyscon h => exact Or.inl h.system
  | storeMmio _ _ h _ _ hx =>
      refine Or.inl ((h.1.trans h.2).system.trans ?_)
      rcases storeMmio_frame hx with ⟨-, _, _, rfl⟩ | ⟨-, _, _, _, _, rfl, -⟩
      · exact .of_csrs rfl rfl rfl rfl rfl rfl rfl
      · exact .of_csrs rfl rfl rfl rfl rfl rfl rfl
  | sret hmode htsr => exact Or.inr (.sret hmode htsr)
  | mret hmode => exact Or.inr (.mret hmode)
  | sfence => exact Or.inl (.of_csrs rfl rfl rfl rfl rfl rfl rfl)
  | csrRead => exact Or.inl (.refl cfg s)
  | csrWrite hop himm hmode hread _ hlegal => exact Or.inr (.csrWrite hop himm hmode hread hlegal)
  | mlogsys =>
      obtain ⟨imm, procs, heq, hprocs⟩ := mlogsysHart_frame hs.incr rs1
      rw [heq]
      exact Or.inl (.of_csrs hprocs rfl rfl rfl rfl rfl rfl)

theorem retiredHart_system (cfg : PageConfig) (s : Hart) (e : End) :
    SystemFrame cfg s (retiredHart cfg s e) := by
  have hrd : SystemFrame cfg s (writeRd { s with csrMip := e.raise s.csrMip } e.rdId e.rd) := by
    unfold writeRd
    split
    · exact .of_csrs rfl rfl rfl rfl rfl rfl rfl
    · exact .of_csrs rfl rfl rfl rfl rfl rfl rfl
  unfold retiredHart incrementInstret
  dsimp only
  split
  · exact hrd.trans (.of_csrs rfl rfl rfl rfl rfl rfl rfl)
  · refine hrd.trans (SystemFrame.trans (.of_csrs ?_ ?_ ?_ ?_ ?_ ?_ ?_) (.counter _ (Or.inr rfl) _))
    all_goals rfl

theorem finish_system (cfg : PageConfig) (s : Hart) (e : End) :
    SystemFrame cfg s (finish cfg s e).2 := by
  cases hretires : e.retires with
  | false =>
      cases e with
      | reset => exact .refl cfg s
      | lost => exact .refl cfg s
      | _ => cases hretires
  | true =>
      rw [finish_eq cfg s hretires, endInstructionTrap_snd]
      exact (retiredHart_system cfg s e).trans (.of_csrs rfl rfl rfl rfl rfl rfl rfl)

theorem Fetches.system {d : Fetched} {s' : Hart} (h : Fetches cfg s d s') : SystemFrame cfg s s' := by
  have hstart : SystemFrame cfg s (fetchHart s) := .of_csrs rfl rfl rfl rfl rfl rfl rfl
  have hload {a : Int} {s₁ : Hart} (ha : fetchAddress cfg (fetchHart s) = .ok a s₁) :
      SystemFrame cfg s s₁ :=
    hstart.trans (wp_ok (fetchAddress_frame cfg (fetchHart s)) ha).1.system
  cases h with
  | cursor => exact .of_csrs rfl rfl rfl rfl rfl rfl rfl
  | icache _ ha => exact (hload ha).trans (.of_csrs rfl rfl rfl rfl rfl rfl rfl)
  | slow _ ha => exact (hload ha).trans (.of_csrs rfl rfl rfl rfl rfl rfl rfl)

/-! ## Steps -/

/-- What an event does to the privileged state. -/
inductive SystemStep (cfg : PageConfig) (m : Machine) : Event → Hart → Prop
  | frame {e : Event} {s' : Hart} (h : SystemFrame cfg m.hart s') : SystemStep cfg m e s'
  | reset (uartFlags : Int) : SystemStep cfg m .reset (resetHart cfg m.hart uartFlags)
  | trap {t : Trap} (hpoint : m.point = .trap t) :
      SystemStep cfg m .step (trapCheckMxdeleg cfg (m.hart.csr cfg medelegCsr) t m.hart).2
  | interrupt (i : Interrupt) (hpoint : m.point = .fireInterrupts) :
      SystemStep cfg m .step
        (trapCheckMxdeleg cfg (m.hart.csr cfg midelegCsr) (interruptTrap i) (loweredHart m.hart)).2
  | execute {d : Fetched} {rs1 rs2 : Int} {label : Label} {e : End} {s' : Hart}
      (hpoint : m.point = .execute d rs1 rs2) (hlabel : labels (d.opId + 192) = some label)
      (h : SystemEffect cfg label d rs1 m.hart e s') : SystemStep cfg m .step s'

theorem SoundMachine.systemStep {m : Machine} (h : SoundMachine cfg m) (e : Event)
    (hg : StoresOk cfg m e) :
    SystemStep cfg m e (m.apply cfg e).hart := by
  have hs := h.hart
  cases e with
  | reset => exact .reset _
  | device uarts => exact .frame (.of_csrs rfl rfl rfl rfl rfl rfl rfl)
  | tick delta =>
      rw [Machine.apply]
      split
      · exact .frame (.of_csrs rfl rfl rfl rfl rfl rfl rfl)
      · exact .frame (.refl cfg m.hart)
  | handOff =>
      rw [Machine.apply]
      split
      · refine .frame ?_
        unfold incrementMcycle
        dsimp only
        split
        · exact .of_csrs rfl rfl rfl rfl rfl rfl rfl
        · have h0 : SystemFrame cfg m.hart { m.hart with csrMcycle := 0 } :=
            .of_csrs rfl rfl rfl rfl rfl rfl rfl
          exact h0.trans (.counter _ (Or.inl rfl) _)
      · exact .frame (.refl cfg m.hart)
  | step =>
      change SystemStep cfg m .step (stepPoint cfg m.point m.hart).2
      cases hpoint : m.point with
      | pollInterrupts => exact .frame (.of_csrs rfl rfl rfl rfl rfl rfl rfl)
      | fireInterrupts =>
          rcases fireInterrupts_cases cfg m.hart with heq | ⟨i, heq⟩
          · rw [stepPoint, heq]
            exact .frame (.of_csrs rfl rfl rfl rfl rfl rfl rfl)
          · rw [stepPoint, heq]
            exact .interrupt i hpoint
      | main =>
          have hfetch := fetch_correct cfg m.hart
          rw [stepPoint]
          cases hx : fetch cfg m.hart with
          | ok d s' =>
              obtain ⟨d', rfl, hd⟩ := wp_ok hfetch hx hs
              exact .frame hd.system
          | error t s' =>
              obtain ⟨hload, -⟩ := wp_error hfetch hx
              have hstart : SystemFrame cfg m.hart (fetchHart m.hart) :=
                .of_csrs rfl rfl rfl rfl rfl rfl rfl
              exact .frame (hstart.trans hload.system)
      | execute d rs1 rs2 =>
          rw [stepPoint]
          cases hx : execute cfg d rs1 rs2 m.hart with
          | ok e s' =>
              obtain ⟨label, hlabel, heffect⟩ := execute_effect (h.ready hpoint hg) hx
              rcases heffect.system hs with hframe | hsystem
              · exact .frame hframe
              · exact .execute hpoint hlabel hsystem
          | error t s' =>
              obtain ⟨label, -, hload, -⟩ := execute_raises hx
              exact .frame hload.system
      | ending e => exact .frame (finish_system cfg m.hart e)
      | trap t => exact .trap hpoint
      | reset => exact .frame (.refl cfg m.hart)
      | lost => exact .frame (.refl cfg m.hart)

end Mlogv32.Cpu
