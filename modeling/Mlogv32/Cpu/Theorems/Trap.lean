import Mlogv32.Cpu.Lemmas.Mode
import Mlogv32.Cpu.Lemmas.Translate
import Mlogv32.Cpu.Theorems.CsrState

/-!
# Synchronous exceptions

What an instruction that raises an exception leaves behind, in any run, and when the exception is
due.
-/

namespace Mlogv32.Cpu
open Mlog Logic Isa
open Isa.Sv32 (Access translate Privilege)

variable {cfg : Config} {s : Hart}

/-! ## The exceptions of the ISA -/

/-- The access that a memory instruction makes. -/
def memAccess : MemOp → Access
  | .load _ | .lr => .load
  | .store _ | .sc | .amo _ => .store

/-- The fault that ends the walk of Sv32 for an access. The value is the virtual address. -/
structure TranslationFault (cfg : Config) (access : Access) (va : Int) (s : Hart) (t : Trap) : Prop where
  cause : t.mcause = accessCause access ∨ t.mcause = pageCause access
  value : t.mtval = va
  walk : ∃ satp mstatus p, ∃ w : BitVec 32, Translates cfg s satp mstatus p ∧ (w.toNat : Int) = va ∧
    ∃ s', runWalk cfg access w (translate satp mstatus p access w) s = .error t s'

/-- The exceptions of the fetch at `pc`. -/
inductive FetchException (cfg : Config) (s : Hart) : Trap → Prop
  | fault {t : Trap} (h : TranslationFault cfg .fetch s.pc (fetchHart s) t) : FetchException cfg s t
  | access {a : Int} {s' : Hart} (h : fetchAddress cfg (fetchHart s) = .ok a s')
      (hdenied : cfg.romSize ≤ a ∧ ¬InRam cfg a) :
      FetchException cfg s { mcause := 1, mtval := s.pc }

/-- There is no privileged instruction with the funct12 `imm`, or the mode and the bits TSR and TVM
of mstatus do not permit it. -/
def PrivDenied (imm : Int) (s : Hart) : Prop :=
  if imm = 0b000100000010 then s.privilegeMode = 0 ∨ s.privilegeMode = 1 ∧ bit s.csrMstatus 22 = true
  else if imm = 0b001100000010 then s.privilegeMode < 3
  else if imm / 32 = 0b0001001 then s.privilegeMode = 0 ∨ s.privilegeMode = 1 ∧
    bit s.csrMstatus 20 = true
  else imm ∉ [0b000000000000, 0b000000000001, 0b000100000101]

/-- The instruction is illegal: its word is none, or the hart does not permit it. -/
inductive IllegalInstruction (cfg : Config) (label : Label) (d : Fetched) (s : Hart) : Prop
  | undefined {w : Word} (hlabel : label = .ILLEGAL_OP) (hfetch : FetchOf w d) (h : ¬Legal w)
  | privileged (hlabel : label = .PRIV) (h : PrivDenied d.imm s)
  | mlogsys (hlabel : label = .MLOGSYS) (h : s.privilegeMode < 3)
  | csr (op : CsrOp) (hlabel : label = handlerLabel (.csr op 0 0 0))
      (h : Csr.illegal csrTable s.privilegeMode (csrState cfg s) d.imm.toNat (op.writes d.rs1Id) = true)

/-- The exceptions of an instruction, with the cause and the value that the ISA gives them. -/
inductive IsaException (cfg : Config) (label : Label) (d : Fetched)
    (rs1 rs2 : Int) (s : Hart) : Trap → Prop
  | misalignedFetch (h : label ∈ [.JAL, .JALR] ∨ branchTaken label rs1 rs2 = some true)
      (halign : jumpTarget label d rs1 s.pc % 4 ≠ 0) :
      IsaException cfg label d rs1 rs2 s { mcause := 0, mtval := jumpTarget label d rs1 s.pc }
  | illegalInstruction (h : IllegalInstruction cfg label d s) :
      IsaException cfg label d rs1 rs2 s { mcause := 2, mtval := 0 }
  | breakpoint (h : label = .PRIV ∧ d.imm = 1) : IsaException cfg label d rs1 rs2 s
      { mcause := 3, mtval := s.pc }
  | environmentCall (h : label = .PRIV ∧ d.imm = 0) :
      IsaException cfg label d rs1 rs2 s { mcause := 8 + s.privilegeMode, mtval := 0 }
  | misaligned {op : MemOp} (hop : memOp label = some op)
      (halign : virtualAddress op d.imm rs1 % memBytes op ≠ 0) :
      IsaException cfg label d rs1 rs2 s
        { mcause := accessCause (memAccess op) - 1, mtval := virtualAddress op d.imm rs1 }
  | fault {op : MemOp} {t : Trap} (hop : memOp label = some op)
      (halign : virtualAddress op d.imm rs1 % memBytes op = 0)
      (h : TranslationFault cfg (memAccess op) (virtualAddress op d.imm rs1) s t) :
      IsaException cfg label d rs1 rs2 s t
  /-- The physical address is not one that the access may use: a load needs ROM or a mapped address,
  a store a mapped one, and an atomic RAM. -/
  | access {op : MemOp} {a : Int} {s' : Hart} (hop : memOp label = some op)
      (halign : virtualAddress op d.imm rs1 % memBytes op = 0)
      (haddress : translated cfg (accessFault op (virtualAddress op d.imm rs1)) s = .ok a s')
      (hdenied : match op with
        | .load _ => cfg.romSize ≤ a ∧ ¬Mapped cfg s a
        | .store _ => ¬Mapped cfg s a
        | .lr | .sc | .amo _ => ¬InRam cfg a) :
      IsaException cfg label d rs1 rs2 s
        { mcause := accessCause (memAccess op), mtval := virtualAddress op d.imm rs1 }

/-! ## Causes and values -/

theorem misalignedCause_eq (op : MemOp) : misalignedCause op = accessCause (memAccess op) - 1 := by
  cases op <;> rfl

theorem accessFault_eq (op : MemOp) (va : Int) :
    accessFault op va = { mcause := accessCause (memAccess op), mtval := va } := by
  cases op <;> rfl

theorem ecallCause_eq (h : ModeOk s) : opOr 0b1000 s.privilegeMode = 8 + s.privilegeMode := by
  have hall : ∀ n : Fin 4, opOr 0b1000 (n.val : Int) = 8 + (n.val : Int) := by decide
  obtain ⟨n, hn⟩ := Int.eq_ofNat_of_zero_le h.1
  have hlt : n < 4 := by have := h.2; omega
  rw [hn]
  exact hall ⟨n, hlt⟩

theorem accessCause_memAccess (op : MemOp) :
    accessCause (memAccess op) = 5 ∨ accessCause (memAccess op) = 7 := by
  cases op <;> first | exact Or.inl rfl | exact Or.inr rfl

theorem FetchRaises.cause_range {t : Trap} (h : FetchRaises cfg s t) : 0 ≤ t.mcause ∧ t.mcause < 64 := by
  cases h with
  | walk h =>
      rcases (wp_error (fetchAddress_frame cfg (fetchHart s)) h).1 with rfl | rfl <;>
        exact ⟨by simp, by simp⟩
  | denied => exact ⟨by simp, by simp⟩

theorem Raises.cause_range {label : Label} {d : Fetched} {rs1 rs2 : Int} {t : Trap} (hm : ModeOk s)
    (h : Raises cfg label d rs1 rs2 s t) : 0 ≤ t.mcause ∧ t.mcause < 64 := by
  cases h with
  | ecall =>
      have hrange := hm
      rw [ecallCause_eq hm]
      unfold ModeOk at hrange
      dsimp only
      omega
  | @misaligned op =>
      have hcause := accessCause_memAccess op
      rw [misalignedCause_eq]
      dsimp only
      omega
  | @walk op _ _ _ _ h =>
      rw [translated, bind_get] at h
      split at h
      · rcases (wp_error (translateVirtualAddress_frame cfg _ s) h).1 with rfl | rfl <;> cases op <;>
          exact ⟨by simp [accessFault, misalignedCause, pageFault],
            by simp [accessFault, misalignedCause, pageFault]⟩
      · cases h
  | @denied op =>
      have hcause := accessCause_memAccess op
      rw [accessFault_eq]
      dsimp only
      omega
  | _ => exact ⟨by simp, by simp⟩

/-! ## Translation -/

/-- A hart below M-mode translates with the values of satp and mstatus. -/
theorem PrivilegeOk.translates (h : PrivilegeOk cfg s) (hsatp : IsWord (s.csr cfg satpCsr))
    (hmode : s.effectivePrivilegeMode < 3) :
    ∃ satp mstatus p, Translates cfg s satp mstatus p := by
  have hword {x : Int} (hx : IsWord x) : ∃ w : BitVec 32, x = w.toNat := by
    obtain ⟨n, rfl⟩ := Int.eq_ofNat_of_zero_le hx.1
    refine ⟨BitVec.ofNat 32 n, ?_⟩
    have hlt := hx.2
    rw [BitVec.toNat_ofNat, Nat.mod_eq_of_lt (by omega)]
  have hmstatus : IsWord s.csrMstatus := by
    have hwithin := h.mstatus
    rw [← hwithin]
    exact isWord_opAnd _ (by decide)
  have heffective : s.effectivePrivilegeMode = 0 ∨ s.effectivePrivilegeMode = 1 := by
    have hmpp := h.legalMpp
    have hcurrent := h.mode
    have heq := h.effective
    split at heq <;> omega
  obtain ⟨satp, hsatp⟩ := hword hsatp
  obtain ⟨mstatus, hmstatus⟩ := hword hmstatus
  rcases heffective with heq | heq
  · exact ⟨satp, mstatus, .user, hsatp, hmstatus, heq⟩
  · exact ⟨satp, mstatus, .supervisor, hsatp, hmstatus, heq⟩

theorem translationFault_of_error {access : Access} {va : Int} {t : Trap} {s' : Hart}
    (hp : PrivilegeOk cfg s) (hsatp : IsWord (s.csr cfg satpCsr))
    (hmode : s.effectivePrivilegeMode < 3) (hva : IsWord va)
    (h : translateVirtualAddress cfg { mcause := accessCause access, mtval := va } s = .error t s') :
    TranslationFault cfg access va s t := by
  obtain ⟨ht, -⟩ := wp_error (translateVirtualAddress_frame cfg _ s) h
  obtain ⟨satp, mstatus, p, htr⟩ := hp.translates hsatp hmode
  obtain ⟨n, rfl⟩ := Int.eq_ofNat_of_zero_le hva.1
  have hw : (BitVec.ofNat 32 n).toNat = n := by
    have hlt := hva.2
    rw [BitVec.toNat_ofNat, Nat.mod_eq_of_lt (by omega)]
  refine ⟨?_, ?_, satp, mstatus, p, BitVec.ofNat 32 n, htr, by rw [hw], s', ?_⟩
  · rcases ht with rfl | rfl
    · exact Or.inl rfl
    · exact Or.inr (by cases access <;> rfl)
  · rcases ht with rfl | rfl <;> rfl
  · rw [← translateVirtualAddress_translates htr, hw]
    exact h

theorem FetchRaises.fetchException {t : Trap} (hp : PrivilegeOk cfg s)
    (hsatp : IsWord (s.csr cfg satpCsr)) (hpc : IsWord s.pc) (h : FetchRaises cfg s t) :
    FetchException cfg s t := by
  have hp' : PrivilegeOk cfg (fetchHart s) := hp.frame (.of_csrs rfl rfl rfl rfl rfl rfl rfl)
  cases h with
  | walk h =>
      rw [fetchAddress, bind_get] at h
      split at h
      · rename_i hlow
        have hmode : (fetchHart s).effectivePrivilegeMode < 3 := by
          have hmprv := hp'.machineMprv
          rw [hp'.effective]
          split
          · have := hmprv ‹_›
            omega
          · exact hlow
        exact .fault (@translationFault_of_error _ _ .fetch _ _ _ hp' hsatp hmode hpc h)
      · cases h
  | denied h hdenied => exact .access h hdenied

/-! ## Illegal instructions -/

theorem SlotOk.fetchOf {v : Value} (h : SlotOk v) : ∃ w, FetchOf w (readIcache v.toNum) := by
  rcases h with rfl | ⟨w, imm, rfl⟩
  · exact ⟨0, 0, Or.inr (by decide +kernel)⟩
  · refine ⟨w, imm, Or.inr ?_⟩
    rw [toDouble_of_exact (decode_wellFormed w imm).exact]
    rfl

theorem Fetches.fetchOf {d : Fetched} {s' : Hart} (h : Fetches cfg s d s') (hs : Sound cfg s) :
    ∃ w, FetchOf w d := by
  cases h with
  | cursor hv => exact (SlotOk.ofCursor hs hv).fetchOf
  | icache _ _ hcached hslot =>
      obtain ⟨b, hb, hslot', -⟩ := hcached.slot hs
      have hcell := hs.slots b hb
      rw [cell, ← hslot', hslot] at hcell
      exact hcell.fetchOf
  | @slow a w _ _ _ _ hw =>
      obtain ⟨n, rfl⟩ := Int.eq_ofNat_of_zero_le hw.1.1
      have hlt := hw.1.2
      refine ⟨BitVec.ofNat 32 n, s.imm, Or.inl ?_⟩
      rw [BitVec.toNat_ofNat, Nat.mod_eq_of_lt (by omega)]

theorem FetchOf.not_legal {w : Word} {d : Fetched} (h : FetchOf w d)
    (hlabel : labels (d.opId + 192) = some .ILLEGAL_OP) :
    ¬Legal w := by
  rintro ⟨i, rfl⟩
  have hillegal := Option.some.inj (h.runs.label.symm.trans hlabel)
  revert hillegal
  unfold handlerLabel
  split <;> simp

theorem privDenied_of_error {imm : Int} {s' : Hart}
    (hmode : s.privilegeMode = 0 ∨ s.privilegeMode = 1 ∨ s.privilegeMode = 3) (himm : IsWord imm)
    (h : privHandler cfg imm s = .error illegalOp s') : PrivDenied imm s := by
  have hstate : wp (privHandler cfg imm) (fun _ _ => True) (fun _ s' => s' = s) s := by
    simp only [privHandler, wp_bind, wp_get]
    cases priv imm s.privilegeMode <;>
      simp only [sret, sfenceVma, mret, wp_bind, wp_get, wp_ite, wp_throw, wp_set,
        wp_pure, implies_true, and_self]
  rw [wp_error hstate h] at h
  have hshr : opShr imm 5 = imm / 2 ^ 5 := by
    obtain ⟨h0, hlt⟩ := himm
    exact opShr_eq imm 5 (by decide) (by omega) (by omega)
  unfold PrivDenied
  rcases (privHandler_error_iff cfg imm s).mp h with hpriv | ⟨hpriv, hone, htsr⟩ | ⟨hpriv, hone, htvm⟩
  · unfold priv at hpriv
    rw [hshr] at hpriv
    split_ifs at hpriv ⊢ <;> first | omega | simp_all
  · have hbit : bit s.csrMstatus 22 = true := by
      by_contra hclear
      exact htsr ((opAnd_two_pow_eq_zero (k := 22) (by decide)).mpr (Bool.not_eq_true _ ▸ hclear))
    unfold priv at hpriv
    split_ifs at hpriv ⊢
    exact Or.inr ⟨hone, hbit⟩
  · have hbit : bit s.csrMstatus 20 = true := by
      by_contra hclear
      exact htvm ((opAnd_two_pow_eq_zero (k := 20) (by decide)).mpr (Bool.not_eq_true _ ▸ hclear))
    unfold priv at hpriv
    rw [hshr] at hpriv
    split_ifs at hpriv ⊢ <;> first | omega | exact Or.inr ⟨hone, hbit⟩

/-- A CSR instruction raises an exception only if its access is illegal. -/
theorem csr_illegal {op : CsrOp} {d : Fetched} {rs1 rs2 : Int} {t : Trap} {s' : Hart}
    (hs : CsrStateOk cfg s) (himm : 0 ≤ d.imm ∧ d.imm < 4096)
    (hlabel : labels (d.opId + 192) = some (handlerLabel (.csr op 0 0 0)))
    (hx : execute cfg d rs1 rs2 s = .error t s') :
    Csr.illegal csrTable s.privilegeMode (csrState cfg s) d.imm.toNat (op.writes d.rs1Id) = true := by
  obtain ⟨n, hn⟩ := Int.eq_ofNat_of_zero_le himm.1
  have hruns := modifyCsr_runs op hn (by omega) hs rs1
  have hexecute : execute cfg d rs1 rs2 = modifyCsr cfg d (modifyCsrOp op) (op.operand d.rs1Id rs1) :=
    execute_csr hlabel (csrOperand_csr op 0 0 0 d rs1) rs2
  rw [← hexecute, hx] at hruns
  rw [hn, Int.toNat_natCast]
  by_contra hlegal
  rw [Csr.execute, if_neg hlegal] at hruns
  obtain ⟨_, _, hok, -⟩ := hruns
  cases hok

theorem illegalInstruction_of_error {label : Label} {d : Fetched} {rs1 rs2 : Int} {s' : Hart}
    (hp : PrivilegeOk cfg s) (hs : CsrStateOk cfg s) (hvalid : d.Valid) (hfetch : ∃ w, FetchOf w d)
    (hlabel : labels (d.opId + 192) = some label)
    (hclass : label ∈ [.ILLEGAL_OP, .PRIV, .MLOGSYS] ++ csrInstructions)
    (hx : execute cfg d rs1 rs2 s = .error illegalOp s') : IllegalInstruction cfg label d s := by
  have hexecute := hx
  rw [execute_eq cfg rs1 rs2 hlabel] at hexecute
  have hcsr (op : CsrOp) (hop : label = handlerLabel (.csr op 0 0 0)) :
      IllegalInstruction cfg label d s := by
    subst hop
    have hlimit := csrInstructions_immLimit hlabel (csrOperand_mem (csrOperand_csr op 0 0 0 d rs1))
    exact .csr op rfl (csr_illegal hs ⟨hvalid.imm.1, hlimit ▸ hvalid.immLimit⟩ hlabel hx)
  simp only [csrInstructions, List.cons_append, List.nil_append, List.mem_cons,
    List.not_mem_nil, or_false] at hclass
  rcases hclass with rfl | rfl | rfl | rfl | rfl | rfl | rfl | rfl | rfl
  · obtain ⟨w, hw⟩ := hfetch
    exact .undefined rfl hw (hw.not_legal hlabel)
  · exact .privileged rfl (privDenied_of_error hp.mode hvalid.imm hexecute)
  · refine .mlogsys rfl ?_
    by_contra hmode
    have hok : mlogsys cfg rs1 s = .ok .endInstruction (mlogsysHart cfg rs1 s) := by
      rw [mlogsys, bind_get, if_neg hmode]
      rfl
    exact absurd (hok.symm.trans hexecute) (by simp)
  · exact hcsr .csrrw rfl
  · exact hcsr .csrrs rfl
  · exact hcsr .csrrc rfl
  · exact hcsr .csrrwi rfl
  · exact hcsr .csrrsi rfl
  · exact hcsr .csrrci rfl

/-! ## The exceptions of an instruction -/

theorem loadWord_denied {a : Int} {trap t : Trap} {s' : Hart} (hlt : a < 2 ^ 32)
    (h : loadWord cfg a trap s = .error t s') : cfg.romSize ≤ a ∧ ¬Mapped cfg s a := by
  rw [loadWord] at h
  split at h
  · cases h
  · rename_i hrom
    exact ⟨not_lt.mp hrom, fun hmapped => wp_error (loadRamOrMmioWord_of_mapped trap hlt hmapped) h⟩

theorem translated_lt {trap : Trap} {a : Int} {s' : Hart} (hva : trap.mtval < 2 ^ 32)
    (h : translated cfg trap s = .ok a s') : a < 2 ^ 32 ∧ LoadFrame s s' := by
  rw [translated, bind_get] at h
  split at h
  · obtain ⟨hload, hrange, -⟩ := wp_ok (translateVirtualAddress_frame cfg trap s) h
    refine ⟨?_, hload⟩
    rcases hrange with hrange | rfl
    · exact hrange.2
    · exact hva
  · obtain ⟨rfl, rfl⟩ := EStateM.Result.ok.inj h
    exact ⟨hva, .refl s⟩

theorem Raises.isaException {label : Label} {d : Fetched} {rs1 rs2 : Int} {t : Trap}
    (hm : ModeOk s) (hp : PrivilegeOk cfg s)
    (hsatp : IsWord (s.csr cfg satpCsr)) (himm : IsWord d.imm) (hrs1 : IsWord rs1)
    (hillegal : t = illegalOp → label ∈ [.ILLEGAL_OP, .PRIV, .MLOGSYS] ++ csrInstructions →
      IllegalInstruction cfg label d s)
    (h : Raises cfg label d rs1 rs2 s t) : IsaException cfg label d rs1 rs2 s t := by
  have heffective : IsWord (effectiveAddress rs1 d.imm) := by
    rw [effectiveAddress, opMod_eq (add_nonneg hrs1.1 himm.1) (by decide)]
    exact ⟨Int.emod_nonneg _ (by decide), Int.emod_lt_of_pos _ (by decide)⟩
  have hva (op : MemOp) : IsWord (virtualAddress op d.imm rs1) := by
    cases op with
    | load | store => exact heffective
    | lr | sc | amo => exact hrs1
  cases h with
  | illegal h hpriv => exact .illegalInstruction (hillegal rfl h)
  | ecall h himm =>
      rw [ecallCause_eq hm]
      exact .environmentCall ⟨h, himm⟩
  | ebreak h himm => exact .breakpoint ⟨h, himm⟩
  | jump h halign => exact .misalignedFetch h halign
  | misaligned hop halign =>
      rw [misalignedCause_eq]
      exact .misaligned hop halign
  | @walk op _ s' hop halign hwalk =>
      refine .fault hop halign ?_
      rw [translated, bind_get, accessFault_eq] at hwalk
      split at hwalk
      · exact translationFault_of_error hp hsatp ‹_› (hva op) hwalk
      · cases hwalk
  | @denied op a s' hop halign hwalk hdenied =>
      have h : IsaException cfg label d rs1 rs2 s _ := .access hop halign hwalk (by
        cases op with
        | load op =>
            obtain ⟨t', s'', hload⟩ := hdenied
            obtain ⟨hlt, hframe⟩ := translated_lt (hva (.load op)).2 hwalk
            obtain ⟨hrom, hmapped⟩ := loadWord_denied hlt hload
            exact ⟨hrom, fun h => hmapped ((hframe.mapped a).mpr h)⟩
        | _ => exact hdenied)
      rwa [← accessFault_eq] at h

/-! ## The trap -/

/-- A mode that takes traps: its CSRs, its number, and its fields of mstatus xIE, xPIE and xPP. -/
structure TrapMode where
  csrs : TrapCsrs
  mode : Int
  xie : Nat
  xpie : Nat
  xpp : Nat
  xppWidth : Nat

def supervisorMode : TrapMode := ⟨supervisorTrapCsrs, 1, 1, 5, 8, 1⟩

def machineMode : TrapMode := ⟨machineTrapCsrs, 3, 3, 7, 11, 2⟩

/-- S-mode takes the exceptions of U-mode and S-mode whose bit of medeleg is set. -/
def trapMode (cfg : Config) (s : Hart) (t : Trap) : TrapMode :=
  if s.privilegeMode ≤ 1 ∧ bit (s.csr cfg medelegCsr) t.mcause.toNat then supervisorMode else machineMode

/-- Bit `n` of mstatus after a trap. -/
def trapMstatusBit (m : TrapMode) (s : Hart) (n : Nat) : Bool :=
  if n = m.xpie then bit s.csrMstatus m.xie
  else if n = m.xie then false
  else if m.xpp ≤ n ∧ n < m.xpp + m.xppWidth then bit s.privilegeMode (n - m.xpp)
  else bit s.csrMstatus n

/-- What a trap `t` in the state `s` of an instruction leaves at the point and in the hart after it.
The flags of mip that software cannot see, the UARTs and the working variables are left out. -/
structure Precise (cfg : Config) (s : Hart) (t : Trap) (p : Point) (s' : Hart) : Prop where
  registers : s'.registers = s.registers
  memory : ∀ tile ≠ cfg.csrs, s'.procs tile = s.procs tile
  reservationSet : s'.reservationSet = s.reservationSet
  csrs : ∀ n, n ∉ [(trapMode cfg s t).csrs.cause, (trapMode cfg s t).csrs.tval,
    (trapMode cfg s t).csrs.epc] →
    s'.csr cfg n = s.csr cfg n
  mip : ∀ n < 30, bit s'.csrMip n = bit s.csrMip n
  mie : s'.csrMie = s.csrMie
  counters : s'.csrMinstret = s.csrMinstret ∧ s'.csrMcycle = s.csrMcycle
  timers : s'.csrMtime = s.csrMtime ∧ s'.csrMtimeh = s.csrMtimeh ∧ s'.csrMtimecmp = s.csrMtimecmp ∧
    s'.csrMtimecmph = s.csrMtimecmph ∧ s'.csrStimecmp = s.csrStimecmp ∧ s'.csrStimecmph = s.csrStimecmph
  mstatus : ∀ n < 32, bit s'.csrMstatus n = trapMstatusBit (trapMode cfg s t) s n
  mode : s'.privilegeMode = (trapMode cfg s t).mode
  cause : s'.csr cfg (trapMode cfg s t).csrs.cause = t.mcause
  tval : s'.csr cfg (trapMode cfg s t).csrs.tval = t.mtval
  epc : s'.csr cfg (trapMode cfg s t).csrs.epc = s.pc
  /-- The hart goes on at xtvec, or halts there if it is the default trap vector. -/
  tvec : if s.csr cfg (trapMode cfg s t).csrs.tvec = syscon then p = .reset
    else p.isBoundary = true ∧ s'.pc = s.csr cfg (trapMode cfg s t).csrs.tvec

/-- mstatus after a trap, for the number of the bit xIE and the field xPP. -/
theorem trapMstatus_bit {mask : Int} {k p w : Nat} (hk : k + 4 < 32) (hw : p < 32 ∧ w < 32)
    (hmask : ∀ n < 32, bit mask n =
      !(decide (n = k + 4) || decide (n = k) || decide (p ≤ n ∧ n < p + w)))
    (hfield : ¬(p ≤ k + 4 ∧ k < p + w)) (hmode : 0 ≤ s.privilegeMode ∧ s.privilegeMode < 2 ^ w)
    {n : Nat} (hn : n < 32) :
    bit (opOr (opOr (opAnd s.csrMstatus mask) (opShl (opAnd s.csrMstatus (2 ^ k)) 4))
      (opShl s.privilegeMode p)) n =
      if n = k + 4 then bit s.csrMstatus k
      else if n = k then false
      else if p ≤ n ∧ n < p + w then bit s.privilegeMode (n - p)
      else bit s.csrMstatus n := by
  have hxpie : bit (opShl (opAnd s.csrMstatus (2 ^ k)) 4) n =
      (decide (n = k + 4) && bit s.csrMstatus k) := by
    rw [show (4 : Int) = ((4 : Nat) : Int) from rfl, bit_opShl _ (by decide) (by omega), bit_opAnd,
      bit_two_pow (by omega)]
    by_cases h : n = k + 4
    · subst h
      simp
    · by_cases h4 : 4 ≤ n
      · have : n - 4 ≠ k := by omega
        simp [h, this]
      · simp [h, h4]
  have hxpp : bit (opShl s.privilegeMode p) n =
      (decide (p ≤ n ∧ n < p + w) && bit s.privilegeMode (n - p)) := by
    rw [bit_opShl _ (by omega) (by omega)]
    by_cases h : n < p + w
    · simp [h]
    · have : bit s.privilegeMode (n - p) = false := bit_of_lt hmode.1 hmode.2 (by omega)
      simp [this]
  rw [bit_opOr, bit_opOr, bit_opAnd, hmask n hn, hxpie, hxpp]
  split_ifs with h1 h2 h3
  · subst h1
    have : ¬(p ≤ k + 4 ∧ k + 4 < p + w) := by omega
    simp [this]
  · subst h2
    have : ¬(p ≤ n ∧ n < p + w) := by omega
    simp [this]
  · simp [h1, h3]
  · simp [h1, h2, h3]

theorem supervisorTrapMstatus_bits (hmode : 0 ≤ s.privilegeMode ∧ s.privilegeMode ≤ 1) {n : Nat}
    (hn : n < 32) :
    bit (supervisorTrapMstatus s) n = trapMstatusBit supervisorMode s n :=
  trapMstatus_bit (k := 1) (p := 8) (w := 1) (by decide) (by decide) (by decide)
    (by decide) (by omega) hn

theorem machineTrapMstatus_bits (hmode : ModeOk s) {n : Nat} (hn : n < 32) :
    bit (machineTrapMstatus s) n = trapMstatusBit machineMode s n :=
  trapMstatus_bit (k := 3) (p := 11) (w := 2) (by decide) (by decide) (by decide) (by decide)
    ⟨hmode.1, lt_of_le_of_lt hmode.2 (by decide)⟩ hn

/-! ## Up to the trap -/

/-- The hart without the working variables of the worker, the UARTs and the flags of mip that
software cannot see. -/
def architectural (s : Hart) : Hart :=
  { s with
    nextPc := 0
    imm := 0
    icacheRam := (0, 0)
    icacheVar := .null
    uartFlags := 0
    csrMip := opAnd s.csrMip 0b00111111111111111111111111111111
    uarts := fun _ _ => 0 }

theorem LoadFrame.architectural {s' : Hart} (h : LoadFrame s s') :
    architectural s' = architectural s := by
  obtain ⟨_, mip, _, rfl, hmip⟩ := h
  have heq : opAnd mip 0b00111111111111111111111111111111 =
      opAnd s.csrMip 0b00111111111111111111111111111111 := by
    rcases hmip with ⟨-, rfl⟩ | ⟨-, rfl⟩
    · rfl
    · exact opAnd_opOr_of_disjoint (by decide) s.csrMip
  unfold Cpu.architectural
  rw [heq]

theorem fetch_architectural (cfg : Config) : Keeps architectural (fetch cfg) :=
  fetch_keeps (fun _ _ h => h.architectural) (fun _ _ _ _ _ => rfl) cfg

/-- The CSRs of a trap are different ones. -/
def TrapCsrs.Distinct (c : TrapCsrs) : Prop :=
  (c.cause ≠ c.tval ∧ c.cause ≠ c.epc ∧ c.tval ≠ c.epc) ∧ c.tvec ≠ c.cause ∧
  c.tvec ≠ c.tval ∧ c.tvec ≠ c.epc

theorem trapProcs_written {c : TrapCsrs} (h : c.Distinct) (t : Trap) (s : Hart) :
    trapProcs cfg c t s cfg.csrs c.cause = .num t.mcause ∧
    trapProcs cfg c t s cfg.csrs c.tval = .num t.mtval ∧
      trapProcs cfg c t s cfg.csrs c.epc = .num s.pc := by
  obtain ⟨⟨hct, hce, hte⟩, -⟩ := h
  have hwrite {n m : Nat} (hn : n ≠ m) (procs : Procs) (x : Value) :
      writeProc procs cfg.csrs (.var m) x cfg.csrs n = procs cfg.csrs n := if_neg fun h => hn h.2
  unfold trapProcs
  refine ⟨?_, ?_, writeProc_var_self _ _ _ _⟩
  · rw [hwrite hce, hwrite hct, writeProc_var_self]
  · rw [hwrite hte, writeProc_var_self]

/-- A trap into a mode, from a state that differs from `s` in the working variables only. -/
theorem precise_trapHart {s₁ : Hart} (hs : architectural s₁ = architectural s) {t : Trap} {m : TrapMode}
    (hm : trapMode cfg s t = m) (hdistinct : m.csrs.Distinct) {mstatus e : Int}
    (hmstatus : ∀ n < 32, bit mstatus n = trapMstatusBit m s n) :
    Precise cfg s t (trapPoint (trapProcs cfg m.csrs t s₁ cfg.csrs m.csrs.tvec).toNum s₁.csrMip)
      (trapHart cfg m.csrs t m.mode mstatus e s₁) := by
  subst hm
  obtain ⟨hcause, htval, hepc⟩ := @trapProcs_written cfg _ hdistinct t s₁
  have htvec := hdistinct.2
  have hprocs : s₁.procs = s.procs := (congrArg Hart.procs hs :)
  have hcsr {n : Nat} (hn : n ≠ (trapMode cfg s t).csrs.cause ∧ n ≠ (trapMode cfg s t).csrs.tval ∧
      n ≠ (trapMode cfg s t).csrs.epc) :
      (trapProcs cfg (trapMode cfg s t).csrs t s₁ cfg.csrs n).toNum = s.csr cfg n := by
    rw [trapProcs_csr cfg _ t s₁ hn, hprocs]
    rfl
  refine
    { registers := (congrArg Hart.registers hs :)
      memory := fun tile htile => (trapProcs_of_ne cfg _ t s₁ htile).trans (congrFun hprocs tile)
      reservationSet := (congrArg Hart.reservationSet hs :)
      csrs := fun n hn => hcsr (by simpa using hn)
      mip := fun n hn => ?_
      mie := (congrArg Hart.csrMie hs :)
      counters := ⟨(congrArg Hart.csrMinstret hs :), (congrArg Hart.csrMcycle hs :)⟩
      timers := ⟨(congrArg Hart.csrMtime hs :), (congrArg Hart.csrMtimeh hs :),
        (congrArg Hart.csrMtimecmp hs :),
        (congrArg Hart.csrMtimecmph hs :), (congrArg Hart.csrStimecmp hs :),
        (congrArg Hart.csrStimecmph hs :)⟩
      mstatus := hmstatus
      mode := rfl
      cause := congrArg Value.toNum hcause
      tval := congrArg Value.toNum htval
      epc := (congrArg Value.toNum hepc).trans (congrArg Hart.pc hs :)
      tvec := ?_ }
  · have hmask : ∀ n < 30, bit 0b00111111111111111111111111111111 n = true := by decide
    have h : opAnd s₁.csrMip 0b00111111111111111111111111111111 =
        opAnd s.csrMip 0b00111111111111111111111111111111 :=
      (congrArg Hart.csrMip hs :)
    have hbit := congrArg (bit · n) h
    rwa [bit_opAnd, bit_opAnd, hmask n hn, Bool.and_true, Bool.and_true] at hbit
  · rw [hcsr htvec]
    dsimp only [trapHart]
    rw [hcsr htvec, trapPoint]
    split_ifs with h
    · rfl
    · exact ⟨rfl, rfl⟩
    · exact ⟨rfl, rfl⟩
    · exact ⟨rfl, rfl⟩

theorem precise_of_trap {s₁ : Hart} (hs : architectural s₁ = architectural s) (hm : ModeOk s) {t : Trap}
    (hcause : 0 ≤ t.mcause ∧ t.mcause < 64) : Precise cfg s t (trap cfg t s₁).1 (trap cfg t s₁).2 := by
  have hmode : s₁.privilegeMode = s.privilegeMode := (congrArg Hart.privilegeMode hs :)
  have hmstatus : s₁.csrMstatus = s.csrMstatus := (congrArg Hart.csrMstatus hs :)
  have hmedeleg : s₁.csr cfg medelegCsr = s.csr cfg medelegCsr :=
    (congrArg (fun h : Hart => h.csr cfg medelegCsr) hs :)
  obtain ⟨n, hn⟩ := Int.eq_ofNat_of_zero_le hcause.1
  have hbit : opAnd (opShr (s.csr cfg medelegCsr) t.mcause) 0b1 =
      if bit (s.csr cfg medelegCsr) t.mcause.toNat then 1 else 0 := by
    rw [hn, opAnd_opShr_one _ (by omega)]
    rfl
  have hcases := trapCheckMxdeleg_cases cfg (s₁.csr cfg medelegCsr) t s₁
  rw [hmode, hmedeleg, hbit] at hcases
  rw [trap, hmedeleg]
  rcases hcases with ⟨hlow, hset, heq⟩ | ⟨hclear, heq⟩
  · have htarget : trapMode cfg s t = supervisorMode := if_pos ⟨hlow, by by_contra h; simp [h] at hset⟩
    rw [heq, trapSupervisor_eq]
    refine precise_trapHart hs htarget (by unfold TrapCsrs.Distinct; decide) fun n hn => ?_
    rw [supervisorTrapMstatus, hmode, hmstatus]
    exact supervisorTrapMstatus_bits ⟨hm.1, hlow⟩ hn
  · have htarget : trapMode cfg s t = machineMode := by
      refine if_neg fun h => ?_
      rcases hclear with hhigh | hclear
      · omega
      · rw [if_pos h.2] at hclear
        exact absurd hclear (by decide)
    rw [heq, trapMachine_eq]
    refine precise_trapHart hs htarget (by unfold TrapCsrs.Distinct; decide) fun n hn => ?_
    rw [machineTrapMstatus, hmode, hmstatus]
    exact machineTrapMstatus_bits hm hn

/-! ## Runs -/

/-- The instruction that `m` is about to fetch raises `t`, and `m'` is about to trap. -/
inductive Excepts (cfg : Config) (m : Machine) : Trap → Machine → Prop
  | fetch {t : Trap} (hmain : m.point = .main) (ht : (m.step cfg).point = .trap t) :
      Excepts cfg m t (m.step cfg)
  | execute {t : Trap} (d : Fetched) (rs1 rs2 : Int) (hmain : m.point = .main)
      (hd : (m.step cfg).point = .execute d rs1 rs2) (ht : ((m.step cfg).step cfg).point = .trap t) :
      Excepts cfg m t ((m.step cfg).step cfg)

/-- The exception is the one of the fetch, or of the instruction that was fetched. -/
def HasCause (cfg : Config) (m : Machine) (t : Trap) : Prop :=
  FetchException cfg m.hart t ∨ ∃ d rs1 rs2 label, (m.step cfg).point = .execute d rs1 rs2 ∧
    labels (d.opId + 192) = some label ∧ IsaException cfg label d rs1 rs2 (m.step cfg).hart t

/-! ### Good runs -/

theorem csrWriteHart_csr (n m : Nat) (x : Int) (s : Hart) (w : CsrWrite) :
    (csrWriteHart cfg (.var n) x s w).csr cfg m = s.csr cfg m ∨
    (csrWriteHart cfg (.var n) x s w).csr cfg m = x := by
  have hwrite (s' : Hart) (h : s'.procs = s.procs) :
      (s'.writeCsr cfg (.var n) x).csr cfg m = s.csr cfg m ∨
      (s'.writeCsr cfg (.var n) x).csr cfg m = x := by
    by_cases hm : m = n
    · subst hm
      exact Or.inr (writeCsr_csr_self s' m x)
    · refine Or.inl ((writeCsr_csr s' hm x).trans ?_)
      rw [Hart.csr, h, Hart.csr]
  cases w with
  | csrs => exact hwrite s rfl
  | satp => exact hwrite _ rfl
  | minstreth => exact hwrite _ rfl
  | _ => exact Or.inl rfl

theorem resetHart_satp (cfg : Config) (s : Hart) (uartFlags : Int) :
    (resetHart cfg s uartFlags).csr cfg satpCsr = 0 := by
  rw [Hart.csr, resetHart_csrs]
  rfl

/-- No event of a sound hart leaves more than a word in satp. -/
theorem SystemStep.satp {m : Machine} {e : Event} {s' : Hart} (hstep : SystemStep cfg m e s')
    (h : IsWord (m.hart.csr cfg satpCsr)) : IsWord (s'.csr cfg satpCsr) := by
  have htrap (mxdeleg : Int) (t : Trap) (s : Hart) (h : IsWord (s.csr cfg satpCsr)) :
      IsWord ((trapCheckMxdeleg cfg mxdeleg t s).2.csr cfg satpCsr) := by
    have hcsr {c : TrapCsrs} (hc : satpCsr ≠ c.cause ∧ satpCsr ≠ c.tval ∧ satpCsr ≠ c.epc) :
        IsWord (trapProcs cfg c t s cfg.csrs satpCsr).toNum := by
      rw [trapProcs_csr cfg c t s hc]
      exact h
    rcases trapCheckMxdeleg_cases cfg mxdeleg t s with ⟨-, -, heq⟩ | ⟨-, heq⟩
    · rw [heq, trapSupervisor_eq]
      exact hcsr (by decide)
    · rw [heq, trapMachine_eq]
      exact hcsr (by decide)
  cases hstep with
  | frame hs =>
      rw [hs.csr satpCsr (by decide) (by decide)]
      exact h
  | reset =>
      rw [resetHart_satp]
      decide
  | trap => exact htrap _ _ _ h
  | interrupt => exact htrap _ _ _ h
  | execute _ _ heffect =>
      cases heffect with
      | sret => exact h
      | mret => exact h
      | @csrWrite op x rd =>
          rcases csrWriteHart_csr _ satpCsr _ m.hart _ with heq | heq
          · rw [heq]
            exact h
          · rw [heq]
            exact masked_word _ _ _ _

theorem Reaches.satp {m : Machine} (h : Reaches cfg (StoresOk cfg) m) :
    IsWord (m.hart.csr cfg satpCsr) := by
  refine (Reachable.invariant (I := fun m => SoundMachine cfg m ∧ IsWord (m.hart.csr cfg satpCsr))
    (fun m hm => ?_)
    (fun m e hm hg => ⟨hm.1.apply e hg, (hm.1.systemStep e hg).satp hm.2⟩) h).2
  obtain ⟨uarts, rfl⟩ := hm
  refine ⟨soundMachine_start cfg uarts, ?_⟩
  change IsWord ((resetHart cfg _ _).csr cfg satpCsr)
  rw [resetHart_satp]
  decide

/-! ### Instructions -/

/-- An instruction that raises an exception has changed no architectural state when it traps. -/
theorem Excepts.raises {m m' : Machine} {t : Trap} (h : Excepts cfg m t m') :
    m'.point = .trap t ∧ architectural m'.hart = architectural m.hart ∧
      (FetchRaises cfg m.hart t ∨ ∃ d rs1 rs2 label s', m.point = .main ∧
        (m.step cfg).point = .execute d rs1 rs2 ∧
        labels (d.opId + 192) = some label ∧ Cpu.execute cfg d rs1 rs2 (m.step cfg).hart = .error t s' ∧
        (m.step cfg).hart.privilegeMode = m.hart.privilegeMode ∧
        Raises cfg label d rs1 rs2 (m.step cfg).hart t) := by
  have hfetch := wp_and (fetch_correct cfg m.hart)
    (wp_and (fetch_architectural cfg m.hart) ((fetch_control cfg).mode m.hart))
  cases h with
  | fetch hmain ht =>
      have hpoint := ht
      rw [Machine.step, hmain, stepPoint] at hpoint
      cases hx : Cpu.fetch cfg m.hart with
      | ok d s' =>
          rw [hx] at hpoint
          cases d <;> cases hpoint
      | error t' s' =>
          rw [hx] at hpoint
          obtain rfl : t' = t := Point.trap.inj hpoint
          obtain ⟨⟨-, hraises⟩, hkeeps, -⟩ := wp_error hfetch hx
          have hhart : (m.step cfg).hart = s' := by
            rw [Machine.step, hmain, stepPoint, hx]
            rfl
          exact ⟨ht, by rw [hhart]; exact hkeeps, Or.inl hraises⟩
  | execute d rs1 rs2 hmain hd ht =>
      have hmode : (m.step cfg).hart.privilegeMode = m.hart.privilegeMode ∧
          architectural (m.step cfg).hart = architectural m.hart := by
        rw [Machine.step, hmain, stepPoint]
        cases hx : Cpu.fetch cfg m.hart with
        | ok d s' =>
            obtain ⟨-, hkeeps, hmode⟩ := wp_ok hfetch hx
            exact ⟨hmode, hkeeps⟩
        | error t s' =>
            obtain ⟨-, hkeeps, hmode⟩ := wp_error hfetch hx
            exact ⟨hmode, hkeeps⟩
      have hpoint := ht
      rw [Machine.step, hd, stepPoint] at hpoint
      cases hx : Cpu.execute cfg d rs1 rs2 (m.step cfg).hart with
      | ok e s' =>
          rw [hx] at hpoint
          cases hpoint
      | error t' s' =>
          rw [hx] at hpoint
          obtain rfl : t' = t := Point.trap.inj hpoint
          obtain ⟨label, hlabel, hload, hraises⟩ := execute_raises hx
          have hhart : ((m.step cfg).step cfg).hart = s' := by
            rw [Machine.step, hd, stepPoint, hx]
            rfl
          refine ⟨ht, ?_, Or.inr ⟨d, rs1, rs2, label, s', hmain, hd, hlabel, hx, hmode.1, hraises⟩⟩
          rw [hhart, hload.architectural, hmode.2]

/-- In every run, whatever its stores overwrite, the trap of an exception is precise. -/
theorem Excepts.precise {m m' : Machine} {t : Trap} (h : Excepts cfg m t m') (hm : ModeOk m.hart) :
    Precise cfg m.hart t (m'.step cfg).point (m'.step cfg).hart := by
  obtain ⟨ht, hs, hraises⟩ := h.raises
  have htrap : stepPoint cfg m'.point m'.hart = trap cfg t m'.hart := by rw [ht]; rfl
  rw [Machine.step, htrap]
  refine precise_of_trap hs hm ?_
  rcases hraises with hfetch | ⟨d, rs1, rs2, label, s', -, -, -, -, hmode, hexecute⟩
  · exact hfetch.cause_range
  · exact hexecute.cause_range (modeOk_of_eq hmode hm)

/-- pc and the registers hold words of 32 bits. -/
def WordHart (s : Hart) : Prop := IsWord s.pc ∧ ∀ i, 0 ≤ i → i < 32 → IsWord (s.registers i)

theorem SoundMachine.executes {m : Machine} (h : SoundMachine cfg m) (hmain : m.point = .main)
    {d : Fetched} {rs1 rs2 : Int} (hd : (m.step cfg).point = .execute d rs1 rs2) :
    d.Valid ∧ (∃ w, FetchOf w d) ∧ rs1 = m.hart.registers d.rs1Id := by
  have hfetch := wp_and (fetch_correct cfg m.hart) (fetch_architectural cfg m.hart)
  rw [Machine.step, hmain, stepPoint] at hd
  cases hx : Cpu.fetch cfg m.hart with
  | ok d' s' =>
      obtain ⟨hfetches, hkeeps⟩ := wp_ok hfetch hx
      obtain ⟨d', rfl, hof⟩ := hfetches h.hart
      rw [hx] at hd
      obtain ⟨rfl, rfl, -⟩ := Point.execute.inj hd
      exact ⟨(hof.sound h.hart).2.1, hof.fetchOf h.hart, congrFun (congrArg Hart.registers hkeeps :) _⟩
  | error t s' =>
      rw [hx] at hd
      cases hd

/-- In every good run, an exception of a hart of words is one that the ISA gives the instruction. -/
theorem Excepts.hasCause {m m' : Machine} {t : Trap} (h : Excepts cfg m t m')
    (hm : Reaches cfg (StoresOk cfg) m) (hwords : WordHart m.hart) : HasCause cfg m t := by
  obtain ⟨-, -, hraises⟩ := h.raises
  rcases hraises with hfetch | ⟨d, rs1, rs2, label, s', hmain, hd, hlabel, hx, -, hexecute⟩
  · exact Or.inl (hfetch.fetchException hm.privilegeOk.2 hm.satp hwords.1)
  · have hnext : Reaches cfg (StoresOk cfg) (m.step cfg) :=
      hm.next (storesOk_of_boundary .step (by rw [hmain]; rfl))
    have hp := hnext.privilegeOk.2
    obtain ⟨hvalid, hword, hrs1⟩ := hm.privilegeOk.1.executes hmain hd
    have hrs1 : IsWord rs1 := hrs1 ▸ hwords.2 _ hvalid.rs1Id.1 hvalid.rs1Id.2
    refine Or.inr ⟨d, rs1, rs2, label, hd, hlabel,
      hexecute.isaException hnext.modeOk hp hnext.satp hvalid.imm hrs1 fun ht hclass => ?_⟩
    exact illegalInstruction_of_error hp hnext.csrStateOk hvalid hword hlabel hclass (ht ▸ hx)

/-- In every run, whatever its stores overwrite: an instruction that raises an exception has changed
no architectural state when it traps, and the trap is precise. A trap to the default trap vector
halts the hart. In every run whose stores go to mapped addresses and store words, the exception of a
hart of words is one that the ISA gives the instruction. -/
theorem excepts_precise (cfg : Config) {m : Machine} (h : Reaches cfg (fun _ _ => True) m)
    {t : Trap} {m' : Machine} (hraised : Excepts cfg m t m') :
    Precise cfg m.hart t (m'.step cfg).point (m'.step cfg).hart ∧
      (Reaches cfg (StoresOk cfg) m → WordHart m.hart → HasCause cfg m t) :=
  ⟨hraised.precise h.modeOk, fun hm hwords => hraised.hasCause hm hwords⟩

/-- `csrrwi x0, mtvec, 16` and `ecall`. -/
def ecallAfterMtvec : List Nat := [0x30585073, 0x00000073]

/-- The hart of `ecallAfterMtvec` before the ECALL. -/
@[irreducible] def ecallMachine : Machine :=
  (Machine.start (smallBuild (romOfWords ecallAfterMtvec)) fun _ _ => 0).run
    (smallBuild (romOfWords ecallAfterMtvec))
    (List.replicate 5 .step)

theorem excepts_precise_ecall :
    Precise (smallBuild (romOfWords ecallAfterMtvec)) ecallMachine.hart { mcause := 11, mtval := 0 }
        (((ecallMachine.step (smallBuild (romOfWords ecallAfterMtvec))).step
          (smallBuild (romOfWords ecallAfterMtvec))).step
            (smallBuild (romOfWords ecallAfterMtvec))).point
        (((ecallMachine.step (smallBuild (romOfWords ecallAfterMtvec))).step
          (smallBuild (romOfWords ecallAfterMtvec))).step
            (smallBuild (romOfWords ecallAfterMtvec))).hart ∧
      HasCause (smallBuild (romOfWords ecallAfterMtvec)) ecallMachine { mcause := 11, mtval := 0 } := by
  have hstart (guard : Machine → Event → Prop) : Reaches (smallBuild (romOfWords ecallAfterMtvec)) guard
      (Machine.start (smallBuild (romOfWords ecallAfterMtvec)) fun _ _ => 0) := .init ⟨_, rfl⟩
  have hreach : Reaches (smallBuild (romOfWords ecallAfterMtvec)) (fun _ _ => True) ecallMachine := by
    unfold ecallMachine
    exact Reachable.run (hstart _) (List.replicate 5 .step) fun _ _ => trivial
  have hgood : Reaches (smallBuild (romOfWords ecallAfterMtvec))
    (StoresOk (smallBuild (romOfWords ecallAfterMtvec)))
      ecallMachine := by
    unfold ecallMachine
    exact (hstart _).events (List.replicate 5 .step) (by decide +kernel)
  have hwords : WordHart ecallMachine.hart := by
    have hregisters : ∀ i : Fin 32, IsWord (ecallMachine.hart.registers i.val) := by decide +kernel
    refine ⟨by decide +kernel, fun i h0 h32 => ?_⟩
    obtain ⟨n, rfl⟩ := Int.eq_ofNat_of_zero_le h0
    exact hregisters ⟨n, by omega⟩
  have hraised : Excepts (smallBuild (romOfWords ecallAfterMtvec)) ecallMachine
      { mcause := 11, mtval := 0 } _ :=
    .execute { opId := -12, imm := 0, result := 0, rdId := 0, rs1Id := 0,
               rs2Id := 0 } 0 0 (by decide +kernel)
      (by decide +kernel) (by decide +kernel)
  obtain ⟨hprecise, hcause⟩ := excepts_precise _ hreach hraised
  exact ⟨hprecise, hcause hgood hwords⟩

/-- Right after a reset, ECALL halts the hart: pc stays at the instruction, and mtvec is the default
one. -/
theorem ecall_halts_at_default_tvec :
    ∃ m m', m = (Machine.start (smallBuild (romOfWords [0x00000073])) fun _ _ => 0).run
        (smallBuild (romOfWords [0x00000073])) (List.replicate 2 .step) ∧
      Excepts (smallBuild (romOfWords [0x00000073])) m { mcause := 11, mtval := 0 } m' ∧
      (m'.step (smallBuild (romOfWords [0x00000073]))).point = .reset ∧
      (m'.step (smallBuild (romOfWords [0x00000073]))).hart.pc ≠
        m.hart.csr (smallBuild (romOfWords [0x00000073])) mtvecCsr := by
  refine ⟨_, _, rfl, .execute
    { opId := -12, imm := 0, result := 0, rdId := 0, rs1Id := 0, rs2Id := 0 } 0 0 ?_ ?_ ?_, ?_, ?_⟩
  all_goals decide +kernel

end Mlogv32.Cpu
