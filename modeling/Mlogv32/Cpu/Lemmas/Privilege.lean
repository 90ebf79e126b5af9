import Mlogv32.Cpu.Lemmas.System

/-!
# The privilege state

The bits of mstatus, mie and mideleg that can be set, and the effective privilege mode. That MPRV is
set in M-mode only is what keeps the cached mode right.
-/

namespace Mlogv32.Cpu
open Mlog Logic Isa

variable {cfg : PageConfig} {s : Hart}

/-! ## The invariant -/

/-- The writable bits of mstatus. -/
def mstatusMask : Int := 0b00000000011111100001100110101010

/-- MEI, SEI, MTI, STI and SSI. -/
def interruptMask : Int := 0b00000000000000000000101010100010

/-- mstatus.MPP. -/
def mpp (mstatus : Int) : Int := opAnd (opShr mstatus 11) 0b11

/-- mstatus.MPRV. -/
def mprv (mstatus : Int) : Bool := opAnd mstatus 0b100000000000000000 ≠ 0

structure PrivilegeOk (cfg : PageConfig) (s : Hart) : Prop where
  mode : s.privilegeMode = 0 ∨ s.privilegeMode = 1 ∨ s.privilegeMode = 3
  mstatus : Within mstatusMask s.csrMstatus
  legalMpp : mpp s.csrMstatus = 0 ∨ mpp s.csrMstatus = 1 ∨ mpp s.csrMstatus = 3
  machineMprv : mprv s.csrMstatus = true → s.privilegeMode = 3
  effective : s.effectivePrivilegeMode = if mprv s.csrMstatus then mpp s.csrMstatus else s.privilegeMode
  mie : Within interruptMask s.csrMie
  mideleg : Within interruptMask (s.csr cfg midelegCsr)

theorem PrivilegeOk.frame {s' : Hart} (h : PrivilegeOk cfg s) (hs : SystemFrame cfg s s') :
    PrivilegeOk cfg s' where
  mode := by rw [hs.privilegeMode]; exact h.mode
  mstatus := by rw [hs.csrMstatus]; exact h.mstatus
  legalMpp := by rw [hs.csrMstatus]; exact h.legalMpp
  machineMprv := by rw [hs.csrMstatus, hs.privilegeMode]; exact h.machineMprv
  effective := by rw [hs.csrMstatus, hs.privilegeMode, hs.effectivePrivilegeMode]; exact h.effective
  mie := by rw [hs.csrMie]; exact h.mie
  mideleg := by rw [hs.csr midelegCsr (by decide) (by decide)]; exact h.mideleg

/-! ## Bits of mstatus -/

theorem mpp_eq (mstatus : Int) :
    mpp mstatus = (if bit mstatus 11 then 1 else 0) + if bit mstatus 12 then 2 else 0 :=
  opAnd_opShr_three mstatus (by decide)

theorem mprv_eq (mstatus : Int) : mprv mstatus = bit mstatus 17 := by
  have h := opAnd_two_pow_eq_zero (a := mstatus) (k := 17) (by decide)
  unfold mprv
  cases hb : bit mstatus 17 with
  | false => exact decide_eq_false (not_not.mpr (h.mpr hb))
  | true => exact decide_eq_true fun h0 => absurd (hb.symm.trans (h.mp h0)) (by decide)

/-- MPP is legal unless its upper bit alone is set. -/
theorem mpp_legal_iff (mstatus : Int) : (mpp mstatus = 0 ∨ mpp mstatus = 1 ∨ mpp mstatus = 3) ↔
    (bit mstatus 12 = true → bit mstatus 11 = true) := by
  rw [mpp_eq]
  cases bit mstatus 11 <;> cases bit mstatus 12 <;> decide

theorem effectiveMode_eq (mstatus mode : Int) :
    effectiveMode mstatus mode = if mprv mstatus then mpp mstatus else mode := by
  unfold effectiveMode mprv mpp
  by_cases h : opAnd mstatus 0b100000000000000000 = 0
  · simp [h]
  · simp [h]

theorem PrivilegeOk.of_bits {s : Hart}
    (hmode : s.privilegeMode = 0 ∨ s.privilegeMode = 1 ∨ s.privilegeMode = 3)
    (hmstatus : Within mstatusMask s.csrMstatus)
    (hmpp : bit s.csrMstatus 12 = true → bit s.csrMstatus 11 = true)
    (hmprv : bit s.csrMstatus 17 = true → s.privilegeMode = 3)
    (heffective : s.effectivePrivilegeMode = effectiveMode s.csrMstatus s.privilegeMode)
    (hmie : Within interruptMask s.csrMie)
    (hmideleg : Within interruptMask (s.csr cfg midelegCsr)) :
    PrivilegeOk cfg s :=
  ⟨hmode, hmstatus, (mpp_legal_iff _).mpr
    hmpp, by rwa [mprv_eq], by rw [heffective, effectiveMode_eq], hmie, hmideleg⟩

/-! ## Traps -/

theorem opShl_xie {mstatus : Int} {k : Nat} (hk : k < 32) :
    opShl (opAnd mstatus (2 ^ k)) 4 = if bit mstatus k then 2 ^ (k + 4) else 0 := by
  rw [opAnd_two_pow mstatus (by omega)]
  split
  · have hlt : (2 : Int) ^ (k + 4) ≤ 2 ^ 36 := pow_le_pow_right₀ (by decide) (by omega)
    have hpos : (0 : Int) < 2 ^ k := by positivity
    have h := opShl_eq (2 ^ k) 4 (by decide) (by omega) (by rw [← pow_add]; omega)
    rw [pow_add]
    exact h
  · rfl

/-- mstatus after a trap into S-mode, outside the fields SPP, SPIE and SIE. -/
theorem supervisorTrapMstatus_bit (s : Hart) (hmode : s.privilegeMode = 0 ∨ s.privilegeMode = 1)
    {n : Nat} (hne : n ≠ 5 ∧ n ≠ 8) (hkeep : bit 0b11111111111111111111111011011101 n = true) :
    bit (supervisorTrapMstatus s) n = bit s.csrMstatus n := by
  have hspp : bit (opShl s.privilegeMode 8) n = false := by
    rcases hmode with h | h <;> rw [h]
    · exact bit_of_lt (k := 0) (by decide) (by decide) (Nat.zero_le n)
    · exact (bit_two_pow (k := 8) (by decide) n).trans (decide_eq_false hne.2)
  have hspie : bit (opShl (opAnd s.csrMstatus 0b10) 4) n = false := by
    have h := @opShl_xie s.csrMstatus 1 (by decide)
    change opShl (opAnd s.csrMstatus 0b10) 4 = _ at h
    rw [h]
    split
    · exact (bit_two_pow (k := 5) (by decide) n).trans (decide_eq_false hne.1)
    · exact bit_of_lt (k := 0) (by decide) (by decide) (Nat.zero_le n)
  rw [supervisorTrapMstatus, bit_opOr, bit_opOr, bit_opAnd, hspp, hspie, hkeep,
    Bool.and_true, Bool.or_false, Bool.or_false]

theorem within_supervisorTrapMstatus (hmode : s.privilegeMode = 0 ∨ s.privilegeMode = 1)
    (h : Within mstatusMask s.csrMstatus) : Within mstatusMask (supervisorTrapMstatus s) := by
  refine ((h.opAnd _).opOr ?_).opOr ?_
  · have hxie := @opShl_xie s.csrMstatus 1 (by decide)
    change opShl (opAnd s.csrMstatus 0b10) 4 = _ at hxie
    rw [hxie]
    exact within_ite (by decide) (by decide)
  · rcases hmode with hm | hm <;> rw [hm] <;> decide

theorem within_machineTrapMstatus
    (hmode : s.privilegeMode = 0 ∨ s.privilegeMode = 1 ∨ s.privilegeMode = 3)
    (h : Within mstatusMask s.csrMstatus) : Within mstatusMask (machineTrapMstatus s) := by
  refine ((h.opAnd _).opOr ?_).opOr ?_
  · have hxie := @opShl_xie s.csrMstatus 3 (by decide)
    change opShl (opAnd s.csrMstatus 0b1000) 4 = _ at hxie
    rw [hxie]
    exact within_ite (by decide) (by decide)
  · rcases hmode with hm | hm | hm <;> rw [hm] <;> decide

theorem machineTrapMstatus_mpp (s : Hart)
    (hmode : s.privilegeMode = 0 ∨ s.privilegeMode = 1 ∨ s.privilegeMode = 3) :
    bit (machineTrapMstatus s) 12 = true → bit (machineTrapMstatus s) 11 = true := by
  have hxie := @opShl_xie s.csrMstatus 3 (by decide)
  change opShl (opAnd s.csrMstatus 0b1000) 4 = _ at hxie
  have hbit (n : Nat) (hn : n = 11 ∨ n = 12) : bit (machineTrapMstatus s) n =
      bit (opShl s.privilegeMode 11) n := by
    have hmask : bit 0b11111111111111111110011101110111 n = false := by
      rcases hn with rfl | rfl <;> decide
    have hmpie : bit (opShl (opAnd s.csrMstatus 0b1000) 4) n = false := by
      rw [hxie]
      rcases hn with rfl | rfl <;> split <;> decide
    rw [machineTrapMstatus, bit_opOr, bit_opOr, bit_opAnd, hmask, hmpie, Bool.and_false,
      Bool.or_false, Bool.false_or]
  rw [hbit 11 (Or.inl rfl), hbit 12 (Or.inr rfl)]
  rcases hmode with h | h | h <;> rw [h] <;> decide

theorem PrivilegeOk.trap (h : PrivilegeOk cfg s) (mxdeleg : Int) (t : Trap) :
    PrivilegeOk cfg (trapCheckMxdeleg cfg mxdeleg t s).2 := by
  have hmideleg {c : TrapCsrs} (hc : midelegCsr ≠ c.cause ∧ midelegCsr ≠ c.tval ∧ midelegCsr ≠ c.epc) :
      Within interruptMask (trapProcs cfg c t s cfg.csrs midelegCsr).toNum := by
    rw [trapProcs_csr cfg c t s hc]
    exact h.mideleg
  rcases trapCheckMxdeleg_cases cfg mxdeleg t s with ⟨hlow, -, heq⟩ | ⟨-, heq⟩
  · have hmode : s.privilegeMode = 0 ∨ s.privilegeMode = 1 := by
      rcases h.mode with hm | hm | hm <;> omega
    have hmprv : bit s.csrMstatus 17 = false := by
      rw [← mprv_eq]
      cases hb : mprv s.csrMstatus with
      | false => rfl
      | true => have := h.machineMprv hb; omega
    have hbit {n : Nat} (hne : n ≠ 5 ∧ n ≠ 8)
        (hkeep : bit 0b11111111111111111111111011011101 n = true) :=
      supervisorTrapMstatus_bit s hmode hne hkeep
    rw [heq, trapSupervisor_eq]
    refine .of_bits (Or.inr (Or.inl rfl)) (within_supervisorTrapMstatus hmode h.mstatus) ?_ ?_ rfl h.mie
      (hmideleg (by decide))
    · dsimp only [trapHart]
      rw [hbit (by decide) (by decide), hbit (by decide) (by decide)]
      exact (mpp_legal_iff _).mp h.legalMpp
    · dsimp only [trapHart]
      rw [hbit (by decide) (by decide), hmprv]
      exact nofun
  · rw [heq, trapMachine_eq]
    exact .of_bits (Or.inr (Or.inr rfl)) (within_machineTrapMstatus h.mode h.mstatus)
      (machineTrapMstatus_mpp s h.mode)
      (fun _ => rfl) rfl h.mie (hmideleg (by decide))

/-! ## Returns -/

theorem opShr_xpie {mstatus : Int} {k : Nat} (hk : k < 32) :
    opShr (opAnd mstatus (2 ^ (k + 4))) 4 = if bit mstatus (k + 4) then 2 ^ k else 0 := by
  rw [opAnd_two_pow mstatus (by omega)]
  split
  · have hlt : (2 : Int) ^ (k + 4) ≤ 2 ^ 36 := pow_le_pow_right₀ (by decide) (by omega)
    have hpos : (0 : Int) < 2 ^ (k + 4) := by positivity
    have h := opShr_eq (2 ^ (k + 4)) 4 (by decide) (by omega) (by omega)
    rw [show (4 : Int) = ((4 : Nat) : Int) from rfl, h, pow_add, Int.mul_ediv_cancel _ (by decide)]
  · rfl

/-- mstatus in `xRET`, before MPRV is cleared. -/
def xRetMstatus (xpieMask mstatus : Int) : Int :=
  opOr (opOr mstatus (opShr (opAnd mstatus xpieMask) 4)) xpieMask

theorem xRet_csrMstatus (xpieMask : Int) (s : Hart) : (xRet xpieMask s).csrMstatus =
    if s.privilegeMode = 0b11 then xRetMstatus xpieMask s.csrMstatus
    else opAnd (xRetMstatus xpieMask s.csrMstatus) 0b11111111111111011111111111111111 := rfl

/-- `xRET` sets xIE and xPIE only. -/
theorem xRetMstatus_bit {k : Nat} (hk : k < 32) (mstatus : Int) {n : Nat} (hne : n ≠ k ∧ n ≠ k + 4) :
    bit (xRetMstatus (2 ^ (k + 4)) mstatus) n = bit mstatus n := by
  have hxpie : bit (2 ^ (k + 4)) n = false := by
    rw [bit_two_pow (by omega)]
    exact decide_eq_false hne.2
  have hxie : bit (if bit mstatus (k + 4) then (2 : Int) ^ k else 0) n = false := by
    split
    · rw [bit_two_pow (by omega)]
      exact decide_eq_false hne.1
    · exact bit_of_lt (k := 0) (by decide) (by decide) (Nat.zero_le n)
  rw [xRetMstatus, opShr_xpie hk, bit_opOr, bit_opOr, hxpie, hxie, Bool.or_false, Bool.or_false]

/-- The common end of the returns, for the number of the bit xIE. -/
theorem xRet_ok {k : Nat} (hk : k = 1 ∨ k = 3)
    (hmode : s.privilegeMode = 0 ∨ s.privilegeMode = 1 ∨ s.privilegeMode = 3)
    (hmstatus : Within mstatusMask s.csrMstatus)
    (hmpp : bit s.csrMstatus 12 = true → bit s.csrMstatus 11 = true)
    (hmie : Within interruptMask s.csrMie)
    (hmideleg : Within interruptMask (s.csr cfg midelegCsr)) :
    PrivilegeOk cfg (xRet (2 ^ (k + 4)) s) := by
  have hk32 : k < 32 := by omega
  have hxpie : Within mstatusMask (2 ^ k) ∧ Within mstatusMask (2 ^ (k + 4)) := by
    rcases hk with rfl | rfl <;> decide
  have hwithin : Within mstatusMask (xRetMstatus (2 ^ (k + 4)) s.csrMstatus) := by
    rw [xRetMstatus, opShr_xpie hk32]
    exact (hmstatus.opOr (within_ite hxpie.1 (by decide))).opOr hxpie.2
  have hlegal : bit (xRetMstatus (2 ^ (k + 4)) s.csrMstatus) 12 = true →
      bit (xRetMstatus (2 ^ (k + 4)) s.csrMstatus) 11 = true := by
    rw [xRetMstatus_bit hk32 _ (by omega), xRetMstatus_bit hk32 _ (by omega)]
    exact hmpp
  by_cases hmachine : s.privilegeMode = 0b11
  · have hm := (xRet_csrMstatus (2 ^ (k + 4)) s).trans (if_pos hmachine)
    exact .of_bits hmode (by rw [hm]; exact hwithin) (by rw [hm]; exact hlegal) (fun _ =>
      hmachine) rfl hmie hmideleg
  · have hm := (xRet_csrMstatus (2 ^ (k + 4)) s).trans (if_neg hmachine)
    refine .of_bits hmode ?_ ?_ ?_ rfl hmie hmideleg
    · rw [hm]
      exact hwithin.opAnd _
    · rw [hm, bit_opAnd, bit_opAnd, show bit 0b11111111111111011111111111111111 12 = true by decide,
        show bit 0b11111111111111011111111111111111 11 = true by decide, Bool.and_true, Bool.and_true]
      exact hlegal
    · rw [hm, bit_opAnd, show bit 0b11111111111111011111111111111111 17 = false by decide,
        Bool.and_false]
      exact nofun

theorem sretHart_mode (cfg : PageConfig) (s : Hart) :
    (sretHart cfg s).privilegeMode = 0 ∨ (sretHart cfg s).privilegeMode = 1 := by
  have hspp := opAnd_two_pow s.csrMstatus (k := 8) (by decide)
  change opAnd s.csrMstatus 0b100000000 = _ at hspp
  change opShr (opAnd s.csrMstatus 0b100000000) 8 = 0 ∨ opShr (opAnd s.csrMstatus 0b100000000) 8 = 1
  rw [hspp]
  split
  · exact Or.inr (by decide)
  · exact Or.inl (by decide)

theorem PrivilegeOk.sret (h : PrivilegeOk cfg s) : PrivilegeOk cfg (sretHart cfg s) := by
  refine xRet_ok (k := 1) (Or.inl rfl) ((sretHart_mode cfg s).imp_right Or.inl)
    (h.mstatus.opAnd _) ?_ h.mie h.mideleg
  change bit (opAnd s.csrMstatus _) 12 = true → bit (opAnd s.csrMstatus _) 11 = true
  rw [bit_opAnd, bit_opAnd, show bit 0b11111111111111111111111011111101 12 = true by decide,
    show bit 0b11111111111111111111111011111101 11 = true by decide, Bool.and_true, Bool.and_true]
  exact (mpp_legal_iff _).mp h.legalMpp

theorem PrivilegeOk.mret (h : PrivilegeOk cfg s) : PrivilegeOk cfg (mretHart cfg s) := by
  have hmode : opShr (opAnd s.csrMstatus 0b1100000000000) 11 = 0 ∨
    opShr (opAnd s.csrMstatus 0b1100000000000) 11 = 1 ∨
      opShr (opAnd s.csrMstatus 0b1100000000000) 11 = 3 := by
    have hmpp := opAnd_two_pow_add s.csrMstatus (i := 11) (j := 12) (by decide) (by decide)
    change opAnd s.csrMstatus 0b1100000000000 = _ at hmpp
    have hlegal := (mpp_legal_iff _).mp h.legalMpp
    rw [hmpp]
    cases h11 : bit s.csrMstatus 11 <;> cases h12 : bit s.csrMstatus 12
    · exact Or.inl (by decide)
    · exact absurd (h11.symm.trans (hlegal h12)) (by decide)
    · exact Or.inr (Or.inl (by decide))
    · exact Or.inr (Or.inr (by decide))
  refine xRet_ok (k := 3) (Or.inr rfl) hmode (h.mstatus.opAnd _) ?_ h.mie h.mideleg
  change bit (opAnd s.csrMstatus _) 12 = true → _
  rw [bit_opAnd, show bit 0b11111111111111111110011111110111 12 = false by decide, Bool.and_false]
  exact nofun

/-! ## Writes of CSRs -/

/-- The fields of sstatus. -/
def sstatusMask : Nat := 0b00000000000011000000000100100010

/-- The entries that write mstatus, and the mask of mideleg. -/
theorem csrEntry_privileged (n : Nat) :
    ((csrEntry n).write = .mstatus → n = 0x300 ∧ ((csrEntry n).mask : Int) = mstatusMask) ∧
    ((csrEntry n).write = .sstatus → n = sstatusCsr ∧ (csrEntry n).mask = sstatusMask) ∧
    (n = midelegCsr → ((csrEntry n).mask : Int) = interruptMask) := by
  have hall : ∀ e ∈ csrEntries, (e.write = .mstatus → e.number = 0x300 ∧ (e.mask : Int) = mstatusMask) ∧
      (e.write = .sstatus → e.number = sstatusCsr ∧ e.mask = sstatusMask) := by decide +kernel
  have hentry := csrEntry_of_forall (p := fun e => (e.write = .mstatus → e.number = 0x300 ∧
    (e.mask : Int) = mstatusMask) ∧
    (e.write = .sstatus → e.number = sstatusCsr ∧ e.mask = sstatusMask)) (n :=
      n) (fun e he _ => hall e he)
    ⟨nofun, nofun⟩
  rw [csrEntry_number] at hentry
  refine ⟨hentry.1, hentry.2, ?_⟩
  rintro rfl
  decide

theorem legalMpp_eq (result : Int) :
    legalMpp result = if mpp result = 2 then opAnd result 0b11111111111111111110011111111111
    else result := by
  have h := opAnd_two_pow_add result (i := 11) (j := 12) (by decide) (by decide)
  change opAnd result 0b1100000000000 = _ at h
  unfold legalMpp
  rw [h, mpp_eq]
  cases bit result 11 <;> cases bit result 12 <;> simp

theorem writeMstatus_ok (h : PrivilegeOk cfg s) (hmode : s.privilegeMode = 3) {result : Int}
    (hresult : Within mstatusMask result) :
    PrivilegeOk cfg (writeSstatus { s with csrMstatus := 0 } (legalMpp result)) := by
  have hlegal : Within mstatusMask (legalMpp result) ∧
      (bit (legalMpp result) 12 = true → bit (legalMpp result) 11 = true) := by
    rw [legalMpp_eq]
    split
    · refine ⟨hresult.opAnd _, ?_⟩
      rw [bit_opAnd, show bit 0b11111111111111111110011111111111 12 = false by decide, Bool.and_false]
      exact nofun
    · rename_i h2
      refine ⟨hresult, ?_⟩
      rw [mpp_eq] at h2
      cases h11 : bit result 11 <;> cases h12 : bit result 12 <;> simp_all
  have hzero (n : Nat) : bit (opAnd 0 0b11111111111100111111111011011101) n = false :=
    bit_of_lt (k := 0) (by decide) (by decide) (Nat.zero_le n)
  have hwithin : Within mstatusMask (opAnd 0 0b11111111111100111111111011011101) := by decide
  refine .of_bits h.mode (hwithin.opOr hlegal.1) ?_ (fun _ => hmode) rfl h.mie h.mideleg
  change bit (opOr _ _) 12 = true → bit (opOr _ _) 11 = true
  rw [bit_opOr, bit_opOr, hzero, hzero, Bool.false_or, Bool.false_or]
  exact hlegal.2

theorem writeSstatus_bit {n : Nat} (hmask : bit sstatusMask n = false)
    (hkeep : bit 0b11111111111100111111111011011101 n = true) {result : Int}
    (hresult : Within sstatusMask result) :
    bit (writeSstatus s result).csrMstatus n = bit s.csrMstatus n := by
  change bit (opOr (opAnd s.csrMstatus 0b11111111111100111111111011011101) result) n = _
  rw [bit_opOr, bit_opAnd, hkeep, hresult.bit_eq_false hmask, Bool.and_true, Bool.or_false]

theorem writeSstatus_ok (h : PrivilegeOk cfg s) {result : Int} (hresult : Within sstatusMask result) :
    PrivilegeOk cfg (writeSstatus s result) := by
  have hwithin : Within mstatusMask result := by
    rw [← hresult, opAnd_comm]
    exact Within.opAnd (by decide) result
  have hbit {n : Nat} (hmask : bit sstatusMask n = false)
      (hkeep : bit 0b11111111111100111111111011011101 n = true) :=
        writeSstatus_bit (s := s) hmask hkeep hresult
  refine .of_bits h.mode ((h.mstatus.opAnd _).opOr hwithin) ?_ ?_ rfl h.mie h.mideleg
  · rw [hbit (by decide) (by decide), hbit (by decide) (by decide)]
    exact (mpp_legal_iff _).mp h.legalMpp
  · rw [hbit (by decide) (by decide), ← mprv_eq]
    exact h.machineMprv

theorem PrivilegeOk.writeCsr (h : PrivilegeOk cfg s) {n : Nat} {x : Int}
    (hx : n = midelegCsr → Within interruptMask x) :
    PrivilegeOk cfg (s.writeCsr cfg (.var n) x) := by
  refine ⟨h.mode, h.mstatus, h.legalMpp, h.machineMprv, h.effective, h.mie, ?_⟩
  by_cases hn : n = midelegCsr
  · subst hn
    rw [writeCsr_csr_self]
    exact hx rfl
  · rw [writeCsr_csr s (Ne.symm hn)]
    exact h.mideleg

theorem PrivilegeOk.csrWrite (h : PrivilegeOk cfg s) {op : ModifyCsrOp} {n : Nat} {x rd : Int}
    (hmode : (n : Int) = 0x300 → 3 ≤ s.privilegeMode) :
    PrivilegeOk cfg (csrWriteHart cfg (.var n) (op.masked (csrEntry n) x rd) s (csrEntry n).write) := by
  obtain ⟨hmstatus, hsstatus, hmideleg⟩ := csrEntry_privileged n
  have hmasked : Within (csrEntry n).mask (op.masked (csrEntry n) x rd) := within_opAnd _ _
  have hwrite {s' : Hart} (h' : PrivilegeOk cfg s') :
      PrivilegeOk cfg (s'.writeCsr cfg (.var n) (op.masked (csrEntry n) x rd)) :=
    h'.writeCsr fun hn => hmideleg hn ▸ hmasked
  have hframe {s' : Hart} (hs : SystemFrame cfg s s') : PrivilegeOk cfg s' := h.frame hs
  cases hw : (csrEntry n).write with
  | mstatus =>
      obtain ⟨hn, hmask⟩ := hmstatus hw
      rw [hmask] at hmasked
      refine writeMstatus_ok h ?_ hmasked
      have := hmode (by omega)
      rcases h.mode with hm | hm | hm <;> omega
  | sstatus =>
      rw [(hsstatus hw).2] at hmasked
      exact writeSstatus_ok h hmasked
  | csrs => exact hwrite h
  | satp => exact hwrite (hframe (.of_csrs rfl rfl rfl rfl rfl rfl rfl))
  | minstreth => exact hwrite (hframe (.of_csrs rfl rfl rfl rfl rfl rfl rfl))
  | sie =>
      refine ⟨h.mode, h.mstatus, h.legalMpp, h.machineMprv, h.effective, ?_, h.mideleg⟩
      refine (h.mie.opAnd _).opOr ?_
      rw [opAnd_comm]
      exact h.mideleg.opAnd _
  | mie => exact ⟨h.mode, h.mstatus, h.legalMpp, h.machineMprv, h.effective, within_opAnd _ _, h.mideleg⟩
  | _ => exact ⟨h.mode, h.mstatus, h.legalMpp, h.machineMprv, h.effective, h.mie, h.mideleg⟩

/-! ## Runs -/

theorem PrivilegeOk.reset (cfg : PageConfig) (s : Hart) (uartFlags : Int) :
    PrivilegeOk cfg (resetHart cfg s uartFlags) := by
  have hmideleg : (resetHart cfg s uartFlags).csr cfg midelegCsr = 0 := by
    rw [Hart.csr, resetHart_csrs]
    rfl
  refine ⟨Or.inr (Or.inr rfl), (by decide : Within mstatusMask 0), Or.inl (by decide : mpp 0 = 0),
    fun _ => rfl,
    (by decide : (3 : Int) = if mprv 0 then mpp 0 else 3), (by decide : Within interruptMask 0), ?_⟩
  rw [hmideleg]
  decide

theorem PrivilegeOk.step {m : Machine} {e : Event} {s' : Hart} (h : PrivilegeOk cfg m.hart)
    (hstep : SystemStep cfg m e s') : PrivilegeOk cfg s' := by
  cases hstep with
  | frame hs => exact h.frame hs
  | reset uartFlags => exact .reset cfg m.hart uartFlags
  | trap => exact h.trap _ _
  | interrupt =>
      have hlowered : SystemFrame cfg m.hart (loweredHart m.hart) := .of_csrs rfl rfl rfl rfl rfl rfl rfl
      exact (h.frame hlowered).trap _ _
  | execute _ _ heffect =>
      cases heffect with
      | sret => exact h.sret
      | mret => exact h.mret
      | csrWrite _ himm hmode =>
          refine h.csrWrite fun hn => ?_
          rw [Int.toNat_of_nonneg himm.1] at hn
          rw [hn] at hmode
          exact hmode

/-- The hart is sound and its privilege state is legal in every run with good stores. -/
theorem Reaches.privilegeOk {m : Machine} (h : Reaches cfg (StoresOk cfg) m) :
    SoundMachine cfg m ∧ PrivilegeOk cfg m.hart := by
  refine Reachable.invariant (I := fun m => SoundMachine cfg m ∧ PrivilegeOk cfg m.hart) (fun m hm => ?_)
    (fun m e hm hg => ?_) h
  · obtain ⟨uarts, rfl⟩ := hm
    exact ⟨soundMachine_start cfg uarts, .reset cfg _ _⟩
  · exact ⟨hm.1.apply e hg, hm.2.step (hm.1.systemStep e hg)⟩

end Mlogv32.Cpu
