import Mlogv32.Cpu.Lemmas.Privilege

/-!
# Privilege isolation

What a run below M-mode cannot change as long as it does not trap into M-mode.
-/

namespace Mlogv32.Cpu
open Mlog Logic Isa

variable {cfg : Config} {s : Hart}

/-! ## The protected state -/

/-- The CSRs of M-mode. -/
def machineProtected : List Nat :=
  [mtvecCsr, mepcCsr, mcauseCsr, mtvalCsr, mscratchCsr, medelegCsr, midelegCsr, mcounterenCsr]

/-- The CSRs of S-mode. -/
def supervisorProtected : List Nat :=
  [stvecCsr, sepcCsr, scauseCsr, stvalCsr, sscratchCsr, satpCsr, scounterenCsr]

/-- The bits of mstatus that S-mode can change: SIE, SPIE, SPP, SUM and MXR. -/
def supervisorBits : List Nat := [1, 5, 8, 18, 19]

/-- mstatus.TVM. -/
def tvm (mstatus : Int) : Bool := opAnd mstatus 0b100000000000000000000 ≠ 0

/-- mstatus.TSR. -/
def tsr (mstatus : Int) : Bool := opAnd mstatus 0b10000000000000000000000 ≠ 0

/-- What S-mode and U-mode must not change. -/
structure Isolated (cfg : Config) (s s' : Hart) : Prop where
  mode : s'.privilegeMode ≤ 1
  csrs : ∀ n ∈ machineProtected, s'.csr cfg n = s.csr cfg n
  mie : ∀ n < 32, bit (s.csr cfg midelegCsr) n = false → bit s'.csrMie n = bit s.csrMie n
  mstatus : ∀ n < 32, n ∉ supervisorBits → bit s'.csrMstatus n = bit s.csrMstatus n
  satp : tvm s.csrMstatus = true → s'.csr cfg satpCsr = s.csr cfg satpCsr

/-- What U-mode must not change. -/
structure UserIsolated (cfg : Config) (s s' : Hart) : Prop where
  mode : s'.privilegeMode = 0
  csrs : ∀ n ∈ machineProtected ++ supervisorProtected, s'.csr cfg n = s.csr cfg n
  stimecmp : s'.csrStimecmp = s.csrStimecmp
  stimecmph : s'.csrStimecmph = s.csrStimecmph
  mie : s'.csrMie = s.csrMie
  mstatus : s'.csrMstatus = s.csrMstatus

/-- The event is a trap or an interrupt into M-mode. -/
def TrapsToMachine (cfg : Config) (m : Machine) : Event → Prop
  | .step =>
      match m.point with
      | .trap _ | .fireInterrupts => (m.step cfg).hart.privilegeMode = 3
      | _ => False
  | _ => False

/-- The event is a trap, or an interrupt that is taken. -/
def Traps (cfg : Config) (m : Machine) : Event → Prop
  | .step =>
      match m.point with
      | .trap _ => True
      | .fireInterrupts => fireInterrupts cfg m.hart ≠ (.main, loweredHart m.hart)
      | _ => False
  | _ => False

theorem tvm_eq (mstatus : Int) : tvm mstatus = bit mstatus 20 := by
  have h := opAnd_two_pow_eq_zero (a := mstatus) (k := 20) (by decide)
  unfold tvm
  cases hb : bit mstatus 20 with
  | false => exact decide_eq_false (not_not.mpr (h.mpr hb))
  | true => exact decide_eq_true fun h0 => absurd (hb.symm.trans (h.mp h0)) (by decide)

theorem Isolated.refl (hmode : s.privilegeMode ≤ 1) : Isolated cfg s s :=
  ⟨hmode, fun _ _ => rfl, fun _ _ _ => rfl, fun _ _ _ => rfl, fun _ => rfl⟩

theorem Isolated.trans {s' s'' : Hart} (h : Isolated cfg s s') (h' : Isolated cfg s' s'') :
    Isolated cfg s s'' where
  mode := h'.mode
  csrs n hn := (h'.csrs n hn).trans (h.csrs n hn)
  mie n hn hdel := by
    have hmideleg := h.csrs midelegCsr (by decide)
    exact (h'.mie n hn (by rw [hmideleg, hdel])).trans (h.mie n hn hdel)
  mstatus n hn hne := (h'.mstatus n hn hne).trans (h.mstatus n hn hne)
  satp htvm := by
    have hbit := h.mstatus 20 (by decide) (by decide)
    exact (h'.satp (by rw [tvm_eq, hbit, ← tvm_eq, htvm])).trans (h.satp htvm)

theorem Isolated.frame {s' : Hart} (hmode : s.privilegeMode ≤ 1) (h : SystemFrame cfg s s') :
    Isolated cfg s s' := by
  have hcsrs : ∀ n ∈ satpCsr :: machineProtected, n ≠ mcyclehCsr ∧ n ≠ minstrethCsr := by decide
  have hcsr {n : Nat} (hn : n ∈ satpCsr :: machineProtected) := h.csr n (hcsrs n hn).1 (hcsrs n hn).2
  refine ⟨by rw [h.privilegeMode]; exact hmode, fun n hn => hcsr (List.mem_cons_of_mem _ hn),
    fun n _ _ => ?_,
    fun n _ _ => ?_, fun _ => hcsr List.mem_cons_self⟩
  · rw [h.csrMie]
  · rw [h.csrMstatus]

/-! ## Instructions -/

theorem supervisorTrap_isolated (hmode : s.privilegeMode = 0 ∨ s.privilegeMode = 1) (t : Trap) :
    Isolated cfg s (trapSupervisor cfg t s).2 := by
  have hcsrs : ∀ n ∈ satpCsr :: machineProtected, n ≠ scauseCsr ∧ n ≠ stvalCsr ∧ n ≠ sepcCsr := by decide
  have hcsr {n : Nat} (hn : n ∈ satpCsr :: machineProtected) :
      (trapProcs cfg supervisorTrapCsrs t s cfg.csrs n).toNum = s.csr cfg n := by
    rw [trapProcs_csr cfg supervisorTrapCsrs t s (hcsrs n hn)]
    rfl
  rw [trapSupervisor_eq]
  refine ⟨le_rfl, fun n hn => hcsr (List.mem_cons_of_mem _ hn), fun n _ _ => rfl, fun n hn hne => ?_,
    fun _ => hcsr List.mem_cons_self⟩
  have hkeep : ∀ n < 32, n ∉ supervisorBits → bit 0b11111111111111111111111011011101 n = true := by
    decide
  have hbits : n ≠ 5 ∧ n ≠ 8 := by
    constructor <;> rintro rfl <;> exact hne (by decide)
  exact supervisorTrapMstatus_bit s hmode hbits (hkeep n hn hne)

/-- The common end of the returns keeps mstatus outside xIE, xPIE and MPRV. -/
theorem xRet_mstatus_bit {k : Nat} (hk : k < 32) (s : Hart) {n : Nat} (hn : n < 32)
    (hne : n ≠ k ∧ n ≠ k + 4) (h17 : n ≠ 17) :
    bit (xRet (2 ^ (k + 4)) s).csrMstatus n = bit s.csrMstatus n := by
  have hmprv : ∀ n < 32, n ≠ 17 → bit 0b11111111111111011111111111111111 n = true := by decide
  rw [xRet_csrMstatus]
  split
  · exact xRetMstatus_bit hk _ hne
  · rw [bit_opAnd, hmprv n hn h17, Bool.and_true, xRetMstatus_bit hk _ hne]

theorem sretHart_mstatus_bit (cfg : Config) (s : Hart) {n : Nat} (hn : n < 32)
    (hne : n ∉ supervisorBits) (h17 : n ≠ 17) :
    bit (sretHart cfg s).csrMstatus n = bit s.csrMstatus n := by
  have hne1 : n ≠ 1 ∧ n ≠ 1 + 4 := by
    constructor <;> rintro rfl <;> exact hne (by decide)
  have hkeep : ∀ n < 32, n ∉ supervisorBits → bit 0b11111111111111111111111011111101 n = true := by
    decide
  have h := xRet_mstatus_bit (k := 1) (by decide)
    { s with
      privilegeMode := opShr (opAnd s.csrMstatus 0b100000000) 8
      csrMstatus := opAnd s.csrMstatus 0b11111111111111111111111011111101
      nextPc := s.csr cfg sepcCsr } hn hne1 h17
  dsimp only at h
  rw [bit_opAnd, hkeep n hn hne, Bool.and_true] at h
  exact h

theorem sret_isolated (h : PrivilegeOk cfg s) (hmode : s.privilegeMode < 3) :
    Isolated cfg s (sretHart cfg s) := by
  have hlow : (sretHart cfg s).privilegeMode ≤ 1 := by
    rcases sretHart_mode cfg s with hm | hm <;> omega
  have hmprv {s' : Hart} (h : PrivilegeOk cfg s') (hlow : s'.privilegeMode < 3) :
      bit s'.csrMstatus 17 = false := by
    rw [← mprv_eq]
    cases hb : mprv s'.csrMstatus with
    | false => rfl
    | true =>
        have := h.machineMprv hb
        omega
  refine ⟨hlow, fun _ _ => rfl, fun _ _ _ => rfl, fun n hn hne => ?_, fun _ => rfl⟩
  by_cases h17 : n = 17
  · subst h17
    rw [hmprv h hmode, hmprv h.sret (by omega)]
  · exact sretHart_mstatus_bit cfg s hn hne h17

/-- The handlers of the entries below M-mode. -/
theorem csrEntry_level (n : Nat) :
    ((csrEntry n).write = .mie → opAnd (opShr n 8) 0b11 = 3) ∧
    (opAnd (opShr n 8) 0b11 = 0 → (csrEntry n).write = .ILLEGAL_OP) ∧
    ((csrEntry n).write = .satp → (csrEntry n).read = .satp ∧ opAnd (opShr n 8) 0b11 = 1) := by
  have hall : ∀ e ∈ csrEntries, (e.write = .mie → opAnd (opShr e.number 8) 0b11 = 3) ∧
      (opAnd (opShr e.number 8) 0b11 = 0 → e.write = .ILLEGAL_OP) ∧
      (e.write = .satp → e.read = .satp ∧ opAnd (opShr e.number 8) 0b11 = 1) := by decide +kernel
  have hentry := csrEntry_of_forall (p := fun e => (e.write = .mie → opAnd (opShr e.number 8) 0b11 = 3) ∧
    (opAnd (opShr e.number 8) 0b11 = 0 → e.write = .ILLEGAL_OP) ∧
    (e.write = .satp → e.read = .satp ∧ opAnd (opShr e.number 8) 0b11 = 1)) (n :=
      n) (fun e he _ => hall e he)
    ⟨nofun, fun _ => rfl, nofun⟩
  rwa [csrEntry_number] at hentry

/-- With TVM set, S-mode cannot read satp. -/
theorem csrRead_satp (imm : Int) (csrVar : Value) (hmode : s.privilegeMode = 0b01)
    (htvm : tvm s.csrMstatus = true) :
    csrRead cfg imm csrVar .satp s = .error illegalOp s := by
  have h : s.privilegeMode = 0b01 ∧ opAnd s.csrMstatus 0b100000000000000000000 ≠ 0 :=
    ⟨hmode, of_decide_eq_true htvm⟩
  rw [csrRead, bind_get, if_pos h]
  rfl

theorem csrWrite_isolated (h : PrivilegeOk cfg s) {op : ModifyCsrOp} {n : Nat} {x rd : Int}
    (hlevel : opAnd (opShr n 8) 0b11 ≤ s.privilegeMode) (hmode : s.privilegeMode < 3)
    (hread : csrRead cfg n (.var n) (csrEntry n).read s = .ok rd s) :
    Isolated cfg s (csrWriteHart cfg (.var n) (op.masked (csrEntry n) x rd) s (csrEntry n).write) := by
  have hlow : s.privilegeMode ≤ 1 := by
    rcases h.mode with hm | hm | hm <;> omega
  obtain ⟨hmie, -, hsatp⟩ := csrEntry_level n
  obtain ⟨hmstatus, hsstatus, -⟩ := csrEntry_privileged n
  have hlevels : ∀ n ∈ machineProtected, opAnd (opShr (n : Int) 8) 0b11 = 3 := by decide
  have hmachine {m : Nat} (hm : m ∈ machineProtected) : m ≠ n := by
    rintro rfl
    have := hlevels m hm
    omega
  -- a write to an entry of CSRS other than satp
  have hwrite {s' : Hart} (y : Int) (hne : satpCsr ≠ n) (h' : Isolated cfg s s') :
      Isolated cfg s (s'.writeCsr cfg (.var n) y) :=
    ⟨h'.mode, fun m hm => (writeCsr_csr s' (hmachine hm) y).trans (h'.csrs m hm), h'.mie, h'.mstatus,
      fun htvm => (writeCsr_csr s' hne y).trans (h'.satp htvm)⟩
  have hentry : (csrEntry satpCsr).write = .satp := by decide
  have hne (hw : (csrEntry n).write ≠ .satp) : satpCsr ≠ n := by
    rintro rfl
    exact hw hentry
  cases hw : (csrEntry n).write with
  | mstatus =>
      rw [(hmstatus hw).1] at hlevel
      have : opAnd (opShr ((0x300 : Nat) : Int) 8) 0b11 = 3 := by decide
      omega
  | mie =>
      have := hmie hw
      omega
  | sstatus =>
      have hmasked : Within sstatusMask (op.masked (csrEntry n) x rd) := by
        rw [← (hsstatus hw).2]
        exact within_opAnd _ _
      have hbits : ∀ n < 32, n ∉ supervisorBits → bit sstatusMask n = false ∧
          bit 0b11111111111100111111111011011101 n = true := by decide
      exact ⟨hlow, fun _ _ => rfl, fun _ _ _ => rfl,
        fun n hn hne => writeSstatus_bit (hbits n hn hne).1 (hbits n hn hne).2 hmasked, fun _ => rfl⟩
  | sie =>
      refine ⟨hlow, fun _ _ => rfl, fun n hn hdel => ?_, fun _ _ _ => rfl, fun _ => rfl⟩
      rw [csrWriteHart, bit_opOr, bit_opAnd, bit_opAnd, bit_opNot _ (by omega), hdel,
        Bool.and_false, Bool.or_false]
      exact Bool.and_true _
  | satp =>
      obtain ⟨hreadSatp, hone⟩ := hsatp hw
      refine ⟨hlow, fun m hm => writeCsr_csr _ (hmachine hm) _, fun _ _ _ => rfl,
        fun _ _ _ => rfl, fun htvm => ?_⟩
      rw [hreadSatp, csrRead_satp n (.var n) (by omega) htvm] at hread
      cases hread
  | csrs => exact hwrite _ (hne (by rw [hw]; exact nofun)) (.refl hlow)
  | minstreth =>
      refine hwrite _ (hne (by rw [hw]; exact nofun)) (Isolated.frame hlow ?_)
      exact .of_csrs rfl rfl rfl rfl rfl rfl rfl
  | _ => exact ⟨hlow, fun _ _ => rfl, fun _ _ _ => rfl, fun _ _ _ => rfl, fun _ => rfl⟩

/-! ## Steps -/

/-- A step below M-mode that does not enter M-mode. -/
theorem SystemStep.isolated {m : Machine} {e : Event} {s' : Hart} (h : SystemStep cfg m e s')
    (hp : PrivilegeOk cfg m.hart)
    (hmode : m.hart.privilegeMode < 3) (hreset : e ≠ .reset)
    (htrap : e = .step → ((∃ t, m.point = .trap t) ∨ m.point = .fireInterrupts) → s'.privilegeMode ≠ 3) :
    Isolated cfg m.hart s' := by
  have hlow : m.hart.privilegeMode = 0 ∨ m.hart.privilegeMode = 1 := by
    rcases hp.mode with hm | hm | hm <;> omega
  have hle : m.hart.privilegeMode ≤ 1 := by omega
  cases h with
  | frame hs => exact .frame hle hs
  | reset => exact absurd rfl hreset
  | @trap t hpoint =>
      rcases trapCheckMxdeleg_cases cfg (m.hart.csr cfg medelegCsr) t m.hart with ⟨-, -, heq⟩ | ⟨-, heq⟩
      · rw [heq]
        exact supervisorTrap_isolated hlow t
      · rw [heq, trapMachine_eq] at htrap
        exact absurd rfl (htrap rfl (Or.inl ⟨t, hpoint⟩))
  | interrupt i hpoint =>
      have hlowered : SystemFrame cfg m.hart (loweredHart m.hart) := .of_csrs rfl rfl rfl rfl rfl rfl rfl
      rcases trapCheckMxdeleg_cases cfg (m.hart.csr cfg midelegCsr) (interruptTrap i)
        (loweredHart m.hart) with
        ⟨-, -, heq⟩ | ⟨-, heq⟩
      · rw [heq]
        have htaken := @supervisorTrap_isolated cfg (loweredHart m.hart) hlow (interruptTrap i)
        exact (Isolated.frame hle hlowered).trans htaken
      · rw [heq, trapMachine_eq] at htrap
        exact absurd rfl (htrap rfl (Or.inr hpoint))
  | execute _ _ heffect =>
      cases heffect with
      | sret => exact sret_isolated hp hmode
      | mret hm => omega
      | csrWrite _ himm hlevel hread =>
          obtain ⟨n, hn⟩ := Int.eq_ofNat_of_zero_le himm.1
          rw [hn] at hlevel hread ⊢
          exact csrWrite_isolated hp hlevel hmode hread

/-- A step in U-mode that does not trap keeps the privileged state. -/
theorem SystemStep.user {m : Machine} {e : Event} {s' : Hart} (h : SystemStep cfg m e s')
    (hmode : m.hart.privilegeMode = 0) (hreset : e ≠ .reset)
    (htrap : e = .step → ∀ t, m.point ≠ .trap t)
    (hinterrupt : e = .step → m.point = .fireInterrupts → s' = loweredHart m.hart) :
    SystemFrame cfg m.hart s' := by
  cases h with
  | frame hs => exact hs
  | reset => exact absurd rfl hreset
  | trap hpoint => exact absurd hpoint (htrap rfl _)
  | interrupt i hpoint =>
      rw [hinterrupt rfl hpoint]
      exact .of_csrs rfl rfl rfl rfl rfl rfl rfl
  | execute _ _ heffect =>
      cases heffect with
      | sret hm => omega
      | mret hm => omega
      | csrWrite _ himm hlevel _ hlegal =>
          obtain ⟨n, hn⟩ := Int.eq_ofNat_of_zero_le himm.1
          rw [hn] at hlevel hlegal
          have hzero : opAnd (opShr (n : Int) 8) 0b11 = 0 := by
            have h3 := opAnd_opShr_three (n : Int) (k := 8) (by decide)
            have h3' : opAnd (opShr (n : Int) 8) 0b11 = _ := h3
            rw [h3'] at hlevel ⊢
            cases hb : bit (n : Int) 8 <;> cases hc : bit (n : Int) 9 <;> simp_all
          exact absurd ((csrEntry_level n).2.1 hzero) hlegal

theorem UserIsolated.frame {s' : Hart} (hmode : s.privilegeMode = 0) (h : SystemFrame cfg s s') :
    UserIsolated cfg s s' := by
  have hcsrs : ∀ n ∈ machineProtected ++ supervisorProtected, n ≠ mcyclehCsr ∧
    n ≠ minstrethCsr := by decide
  exact ⟨h.privilegeMode.trans hmode, fun n hn => h.csr n (hcsrs n hn).1 (hcsrs n hn).2,
    h.csrStimecmp, h.csrStimecmph,
    h.csrMie, h.csrMstatus⟩

/-! ## Instructions that S-mode may not execute -/

/-- A CSR instruction on satp. -/
def AccessesSatp (d : Fetched) : Prop :=
  (∃ label ∈ csrInstructions, labels (d.opId + 192) = some label) ∧ d.imm = satpCsr

/-- SFENCE.VMA, as PRIV recognises it. -/
def IsSfenceVma (d : Fetched) : Prop := labels (d.opId + 192) = some .PRIV ∧ opShr d.imm 5 = 0b0001001

/-- SRET, as PRIV recognises it. -/
def IsSret (d : Fetched) : Prop := labels (d.opId + 192) = some .PRIV ∧ d.imm = 0b000100000010

theorem step_of_execute {m : Machine} {d : Fetched} {rs1 rs2 : Int}
    (hpoint : m.point = .execute d rs1 rs2) {t : Trap}
    (hx : execute cfg d rs1 rs2 m.hart = .error t m.hart) :
    m.step cfg = { m with point := .trap t } := by
  have hstep : stepPoint cfg m.point m.hart = (.trap t, m.hart) := by
    rw [hpoint, stepPoint, hx]
    rfl
  rw [Machine.step, hstep]

/-- With TVM set, no CSR instruction of S-mode gets past the read of satp. -/
theorem satp_traps (hs : Sound cfg s) (hmode : s.privilegeMode = 1) (htvm : tvm s.csrMstatus = true)
    {d : Fetched} (hd : AccessesSatp d) (rs1 rs2 : Int) :
    execute cfg d rs1 rs2 s = .error illegalOp s := by
  obtain ⟨⟨label, hlabel, hlabels⟩, himm⟩ := hd
  have hop : ∃ op x, csrOperand d rs1 label = some (op, x) := by
    fin_cases hlabel <;> exact ⟨_, _, rfl⟩
  obtain ⟨op, x, hop⟩ := hop
  have hread : (csrEntry satpCsr).read = .satp := by decide
  have hlevel : opAnd (opShr d.imm 8) 0b11 = 1 := by
    rw [himm]
    decide
  have hn : d.imm.toNat = satpCsr := by
    rw [himm]
    rfl
  rw [execute_csr hlabels hop rs2, modifyCsr_eq op x (by rw [himm]; decide) hs.csrLabels,
    if_neg (by omega), hn, hread, bind_error (csrRead_satp d.imm _ hmode htvm)]

theorem sfenceVma_traps (hmode : s.privilegeMode = 1) (htvm : tvm s.csrMstatus = true) {d : Fetched}
    (hd : IsSfenceVma d) (rs1 rs2 : Int) : execute cfg d rs1 rs2 s = .error illegalOp s := by
  have hpriv : priv d.imm s.privilegeMode = .SFENCE_VMA := by
    have himm : opShr d.imm 5 ≠ opShr 0 5 ∧ opShr d.imm 5 ≠ opShr 1 5 ∧
      opShr d.imm 5 ≠ opShr 0b000100000101 5 ∧
        opShr d.imm 5 ≠ opShr 0b000100000010 5 := by
      rw [hd.2]
      decide
    have hne {a : Int} (h : opShr d.imm 5 ≠ opShr a 5) : d.imm ≠ a := fun ha => h (by rw [ha])
    rw [priv, if_neg (hne himm.1), if_neg (hne himm.2.1), if_neg (hne himm.2.2.1), if_neg (by omega),
      if_neg (hne himm.2.2.2), if_pos hd.2]
  have h : s.privilegeMode = 0b01 ∧ opAnd s.csrMstatus 0b100000000000000000000 ≠ 0 :=
    ⟨hmode, of_decide_eq_true htvm⟩
  have hsfence : sfenceVma s = .error illegalOp s := by
    rw [sfenceVma, bind_get, if_pos h]
    rfl
  rw [execute, hd.1]
  dsimp only [handler]
  rw [privHandler, bind_get, hpriv]
  exact hsfence

theorem sret_traps (hmode : s.privilegeMode = 1) (htsr : tsr s.csrMstatus = true) {d : Fetched}
    (hd : IsSret d) (rs1 rs2 : Int) : execute cfg d rs1 rs2 s = .error illegalOp s := by
  have hpriv : priv d.imm s.privilegeMode = .SRET := by
    rw [priv, hd.2, if_neg (by decide), if_neg (by decide), if_neg (by decide),
      if_neg (by omega), if_pos rfl]
  have h : s.privilegeMode = 0b01 ∧ opAnd s.csrMstatus 0b10000000000000000000000 ≠ 0 :=
    ⟨hmode, of_decide_eq_true htsr⟩
  have hsret : sret cfg s = .error illegalOp s := by
    rw [sret, bind_get, if_pos h]
    rfl
  rw [execute, hd.1]
  dsimp only [handler]
  rw [privHandler, bind_get, hpriv]
  exact hsret

/-! ## Runs -/

/-- The states of a run below M-mode: no reset, and no trap into M-mode. -/
abbrev IsolatedRun (cfg : Config) (m : Machine) : Machine → Prop :=
  Reachable (· = m) (fun m e => StoresOk cfg m e ∧ e ≠ .reset ∧
    ¬TrapsToMachine cfg m e) (Machine.apply cfg)

/-- The states of a run without traps. -/
abbrev UserRun (cfg : Config) (m : Machine) : Machine → Prop :=
  Reachable (· = m) (fun m e => StoresOk cfg m e ∧ e ≠ .reset ∧ ¬Traps cfg m e) (Machine.apply cfg)

theorem IsolatedRun.isolated {m m' : Machine} (hs : SoundMachine cfg m) (hp : PrivilegeOk cfg m.hart)
    (hmode : m.hart.privilegeMode < 3) (h : IsolatedRun cfg m m') :
    SoundMachine cfg m' ∧ PrivilegeOk cfg m'.hart ∧ Isolated cfg m.hart m'.hart := by
  refine Reachable.invariant (I := fun m' => SoundMachine cfg m' ∧ PrivilegeOk cfg m'.hart ∧
    Isolated cfg m.hart m'.hart)
    (fun m' hm => ?_) (fun m' e hm hg => ?_) h
  · subst hm
    exact ⟨hs, hp, .refl (by rcases hp.mode with h | h | h <;> omega)⟩
  · obtain ⟨hs', hp', hiso⟩ := hm
    obtain ⟨hg, hreset, htraps⟩ := hg
    have hstep := hs'.systemStep e hg
    have hlow := hiso.mode
    refine ⟨hs'.apply e hg, hp'.step hstep,
      hiso.trans (hstep.isolated hp' (by omega) hreset fun he hpoint h3 => ?_)⟩
    subst he
    refine htraps ?_
    rcases hpoint with ⟨t, hpoint⟩ | hpoint <;> rw [TrapsToMachine, hpoint] <;> exact h3

theorem UserRun.frame {m m' : Machine} (hs : SoundMachine cfg m) (hmode : m.hart.privilegeMode = 0)
    (h : UserRun cfg m m') : SoundMachine cfg m' ∧ SystemFrame cfg m.hart m'.hart := by
  refine Reachable.invariant (I := fun m' => SoundMachine cfg m' ∧ SystemFrame cfg m.hart m'.hart)
    (fun m' hm => ?_) (fun m' e hm hg => ?_) h
  · subst hm
    exact ⟨hs, .refl cfg m'.hart⟩
  · obtain ⟨hs', hframe⟩ := hm
    obtain ⟨hg, hreset, htraps⟩ := hg
    have hmode' : m'.hart.privilegeMode = 0 := hframe.privilegeMode.trans hmode
    refine ⟨hs'.apply e hg, hframe.trans ((hs'.systemStep e hg).user hmode' hreset ?_ ?_)⟩
    · rintro rfl t hpoint
      refine htraps ?_
      rw [Traps, hpoint]
      trivial
    · rintro rfl hpoint
      rw [Traps, hpoint] at htraps
      rw [Machine.apply, Machine.step, hpoint, stepPoint, not_not.mp htraps]

/-- In every run whose stores go to mapped addresses and store words: from a state below M-mode,
what M-mode protects stays until a trap into M-mode, what S-mode protects from U-mode stays until a
trap, and TVM and TSR make satp, SFENCE.VMA and SRET trap in S-mode. -/
theorem privilege_isolation (cfg : Config) {m : Machine} (h : Reaches cfg (StoresOk cfg) m)
    (hmode : m.hart.privilegeMode < 3) :
    (∀ m', IsolatedRun cfg m m' → Isolated cfg m.hart m'.hart) ∧
    (m.hart.privilegeMode = 0 → ∀ m', UserRun cfg m m' → UserIsolated cfg m.hart m'.hart) ∧
    (m.hart.privilegeMode = 1 → ∀ d rs1 rs2, m.point = .execute d rs1 rs2 →
      (tvm m.hart.csrMstatus = true → AccessesSatp d ∨ IsSfenceVma d →
        m.step cfg = { m with point := .trap illegalOp }) ∧
      (tsr m.hart.csrMstatus = true → IsSret d → m.step cfg = { m with point := .trap illegalOp })) := by
  obtain ⟨hs, hp⟩ := h.privilegeOk
  refine ⟨fun m' hrun => (hrun.isolated hs hp hmode).2.2, fun hzero m' hrun =>
    .frame hzero (hrun.frame hs hzero).2,
    fun hone d rs1 rs2 hpoint => ⟨fun htvm hd => ?_, fun htsr hd => ?_⟩⟩
  · rcases hd with hd | hd
    · exact step_of_execute hpoint (satp_traps hs.hart hone htvm hd rs1 rs2)
    · exact step_of_execute hpoint (sfenceVma_traps hone htvm hd rs1 rs2)
  · exact step_of_execute hpoint (sret_traps hone htsr hd rs1 rs2)

/-- `csrrwi x0, mepc, 8`, `mret` to U-mode, and `addi x1, x0, 1`. -/
def mretToUser : List Nat := [0x34145073, 0x30200073, 0x00100093]

/-- The hart of `mretToUser` before the instruction in U-mode. -/
@[irreducible] def userMachine : Machine :=
  (Machine.start (smallBuild (romOfWords mretToUser)) fun _ _ => 0).run
    (smallBuild (romOfWords mretToUser))
    (List.replicate 9 .step)

theorem privilege_isolation_mretToUser :
    Isolated (smallBuild (romOfWords mretToUser)) userMachine.hart
        (userMachine.apply (smallBuild (romOfWords mretToUser)) .step).hart ∧
      UserIsolated (smallBuild (romOfWords mretToUser)) userMachine.hart
        (userMachine.apply (smallBuild (romOfWords mretToUser)) .step).hart := by
  have hstart : Reaches (smallBuild (romOfWords mretToUser))
    (StoresOk (smallBuild (romOfWords mretToUser)))
      (Machine.start (smallBuild (romOfWords mretToUser)) fun _ _ => 0) := .init ⟨_, rfl⟩
  have hreach : Reaches (smallBuild (romOfWords mretToUser))
    (StoresOk (smallBuild (romOfWords mretToUser)))
      userMachine := by
    unfold userMachine
    exact hstart.events (List.replicate 9 .step) (by decide +kernel)
  have hpoint : userMachine.point = .main := by decide +kernel
  have hzero : userMachine.hart.privilegeMode = 0 := by decide +kernel
  have hok := @storesOk_of_boundary (smallBuild (romOfWords mretToUser)) userMachine .step
    (by rw [hpoint]; rfl)
  have h := privilege_isolation (smallBuild (romOfWords mretToUser)) (m := userMachine) hreach (by omega)
  refine ⟨h.1 _ (.next (.init rfl) ⟨hok, nofun, ?_⟩), h.2.1 hzero _ (.next (.init rfl) ⟨hok, nofun, ?_⟩)⟩
  · rw [TrapsToMachine, hpoint]
    exact not_false
  · rw [Traps, hpoint]
    exact not_false

/-- A store to the entry of cycle (0xc00) in CSR_LABELS, which gives it the write handler of
stimecmp; then `csrrwi x0, mepc, 24`, `mret` to U-mode, and `csrrwi x0, cycle, 1`. -/
def swCsrLabels : List Nat :=
  [0x80a130b7, 0x34d62137, 0xc0010113, 0x0020a023, 0x341c5073, 0x30200073, 0xc000d073]

/-- After a store above RAM, a CSR instruction of U-mode changes stimecmp. -/
theorem swCsrLabels_breaks_isolation :
    ∃ m, m = (Machine.start (smallBuild (romOfWords swCsrLabels)) fun _ _ => 0).run
      (smallBuild (romOfWords swCsrLabels))
        (List.replicate 21 .step) ∧
      m.point = .main ∧ m.hart.privilegeMode = 0 ∧
      ∃ m', m' = m.run (smallBuild (romOfWords swCsrLabels)) (List.replicate 3 .step) ∧
      m'.point = .pollInterrupts ∧
        m'.hart.pc = m.hart.pc + 4 ∧
        ¬UserIsolated (smallBuild (romOfWords swCsrLabels)) m.hart m'.hart := by
  refine ⟨_, rfl, by decide +kernel, by decide +kernel, _,
    rfl, by decide +kernel, by decide +kernel, fun h => ?_⟩
  have hstimecmp : (((Machine.start (smallBuild (romOfWords swCsrLabels)) fun _ _ => 0).run
      (smallBuild (romOfWords swCsrLabels)) (List.replicate 21 .step)).run
        (smallBuild (romOfWords swCsrLabels))
      (List.replicate 3 .step)).hart.csrStimecmp ≠
        ((Machine.start (smallBuild (romOfWords swCsrLabels)) fun _ _ => 0).run
      (smallBuild (romOfWords swCsrLabels))
        (List.replicate 21 .step)).hart.csrStimecmp := by decide +kernel
  exact hstimecmp h.stimecmp

end Mlogv32.Cpu
