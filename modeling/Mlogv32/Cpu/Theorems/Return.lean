import Mlogv32.Cpu.Lemmas.Atomic
import Mlogv32.Cpu.Lemmas.Privilege
import Mlogv32.Cpu.Theorems.Trap

/-!
# Returns from traps

A trap and the xRET of the mode it enters, in any run.
-/

namespace Mlogv32.Cpu
open Mlog Logic Isa

variable {cfg : Config} {s : Hart}

/-! ## Traps and returns -/

/-- The worker takes an exception or an interrupt at `m`, and is at `m'` after it. -/
inductive TrapStep (cfg : Config) (m : Machine) : Machine → Prop
  | exception (t : Trap) (hpoint : m.point = .trap t) : TrapStep cfg m (m.step cfg)
  | interrupt (i : Interrupt) (hpoint : m.point = .fireInterrupts)
      (hi : fireInterrupts cfg m.hart =
        trapCheckMxdeleg cfg (m.hart.csr cfg midelegCsr) (interruptTrap i) (loweredHart m.hart)) :
      TrapStep cfg m (m.step cfg)

/-- The mode that the last trap of `s` has entered. -/
def enteredMode (s : Hart) : TrapMode := if s.privilegeMode = 1 then supervisorMode else machineMode

/-- The number of the return from a mode: SRET or MRET. -/
def TrapMode.xRet (m : TrapMode) : Int := if m.mode = 1 then 0b000100000010 else 0b001100000010

/-- `r` is about to execute `d`, the return from the trap that has left `s`. It has the mode,
mstatus and xepc of `s`, and TSR does not forbid SRET. -/
structure Returns (cfg : Config) (s : Hart) (d : Fetched) (r : Hart) : Prop where
  label : labels (d.opId + 192) = some .PRIV
  imm : d.imm = (enteredMode s).xRet
  mode : r.privilegeMode = s.privilegeMode
  mstatus : r.csrMstatus = s.csrMstatus
  epc : r.csr cfg (enteredMode s).csrs.epc = s.csr cfg (enteredMode s).csrs.epc
  tsr : s.privilegeMode = 1 → bit s.csrMstatus 22 = false

/-- The hart after the execution of an instruction and its end. -/
def executedHart (cfg : Config) (d : Fetched) (rs1 rs2 : Int) (r : Hart) : Hart :=
  let p := stepPoint cfg (.execute d rs1 rs2) r
  (stepPoint cfg p.1 p.2).2

/-- The control state of `s`, from before the trap, is back in `r'` after the return from `m`, and
the return has kept the registers of `r`. -/
structure Restored (m : TrapMode) (s r r' : Hart) : Prop where
  mode : r'.privilegeMode = s.privilegeMode
  pc : r'.pc = s.pc
  xie : bit r'.csrMstatus m.xie = bit s.csrMstatus m.xie
  xpie : bit r'.csrMstatus m.xpie = true
  xpp : ∀ n, m.xpp ≤ n → n < m.xpp + m.xppWidth → bit r'.csrMstatus n = false
  mstatus : ∀ n < 32, n ≠ m.xpie → ¬(m.xpp ≤ n ∧ n < m.xpp + m.xppWidth) →
    bit r'.csrMstatus n = bit s.csrMstatus n
  registers : r'.registers = r.registers

/-! ## The trap -/

/-- What a trap into `m` leaves of `s`. -/
structure Entered (cfg : Config) (m : TrapMode) (s s' : Hart) : Prop where
  below : m = supervisorMode ∧ s.privilegeMode ≤ 1 ∨ m = machineMode
  mode : s'.privilegeMode = m.mode
  mstatus : ∀ n < 32, bit s'.csrMstatus n = trapMstatusBit m s n
  epc : s'.csr cfg m.csrs.epc = s.pc
  registers : s'.registers = s.registers

theorem Entered.enteredMode_eq {m : TrapMode} {s' : Hart} (h : Entered cfg m s s') :
    enteredMode s' = m := by
  rw [enteredMode, h.mode]
  rcases h.below with ⟨rfl, -⟩ | rfl
  · rfl
  · rfl

theorem trapCheckMxdeleg_entered (hm : ModeOk s) (mxdeleg : Int) (t : Trap) :
    ∃ m, Entered cfg m s (trapCheckMxdeleg cfg mxdeleg t s).2 := by
  have hepc {c : TrapCsrs} (hc : c.Distinct) : (trapProcs cfg c t s cfg.csrs c.epc).toNum = s.pc :=
    congrArg Value.toNum (trapProcs_written hc t s).2.2
  rcases trapCheckMxdeleg_cases cfg mxdeleg t s with ⟨hlow, -, heq⟩ | ⟨-, heq⟩
  · rw [heq, trapSupervisor_eq]
    exact ⟨supervisorMode, Or.inl ⟨rfl, hlow⟩, rfl, fun n hn =>
      supervisorTrapMstatus_bits ⟨hm.1, hlow⟩ hn,
      hepc (by unfold TrapCsrs.Distinct; decide), rfl⟩
  · rw [heq, trapMachine_eq]
    exact ⟨machineMode, Or.inr rfl, rfl, fun n hn => machineTrapMstatus_bits hm hn,
      hepc (by unfold TrapCsrs.Distinct; decide), rfl⟩

theorem TrapStep.entered {m m' : Machine} (hm : ModeOk m.hart) (h : TrapStep cfg m m') :
    ∃ mode, Entered cfg mode m.hart m'.hart := by
  cases h with
  | exception t hpoint =>
      rw [Machine.step, hpoint]
      exact trapCheckMxdeleg_entered hm _ t
  | interrupt i hpoint hi =>
      obtain ⟨mode, h⟩ := @trapCheckMxdeleg_entered cfg (loweredHart m.hart) hm
        (m.hart.csr cfg midelegCsr) (interruptTrap i)
      rw [← hi] at h
      rw [Machine.step, hpoint]
      exact ⟨mode, h.below, h.mode, h.mstatus, h.epc, h.registers⟩

/-! ## The return -/

/-- Bit `n` of `xRetMstatus`, from an mstatus without xIE and the field xPP. -/
theorem xRetMstatus_masked {mask : Int} {k p w : Nat} (hk : k + 4 < 17) (mstatus : Int)
    (hmask : ∀ n < 32, bit mask n = !(decide (n = k) || decide (p ≤ n ∧ n < p + w)))
    (hfield : ¬(p ≤ k + 4 ∧ k + 4 < p + w)) {n : Nat} (hn : n < 32) :
    bit (xRetMstatus (2 ^ (k + 4)) (opAnd mstatus mask)) n =
      if n = k + 4 then true
      else if n = k then bit mstatus (k + 4)
      else if p ≤ n ∧ n < p + w then false
      else bit mstatus n := by
  split_ifs with hxpie hxie hxpp
  · have hbit : bit (2 ^ (k + 4)) n = true := by
      rw [bit_two_pow (by omega)]
      exact decide_eq_true hxpie
    rw [xRetMstatus, bit_opOr, hbit, Bool.or_true]
  · subst hxie
    have hbit : bit (2 ^ (n + 4)) n = false := by
      rw [bit_two_pow (by omega)]
      exact decide_eq_false (by omega)
    have hkept : bit mask (n + 4) = true := by
      rw [hmask _ (by omega)]
      simp [hfield]
    have hcleared : bit mask n = false := by
      rw [hmask _ hn]
      simp
    rw [xRetMstatus, opShr_xpie (by omega), bit_opOr, bit_opOr, bit_opAnd,
      bit_opAnd, hbit, hkept, hcleared, Bool.and_false, Bool.false_or, Bool.or_false, Bool.and_true]
    cases bit mstatus (n + 4)
    · rw [if_neg (by decide)]
      exact bit_of_lt (k := 0) (by decide) (by decide) (Nat.zero_le n)
    · exact (bit_two_pow (by omega) n).trans (decide_eq_true rfl)
  · rw [xRetMstatus_bit (by omega) _ ⟨hxie, hxpie⟩, bit_opAnd, hmask _ hn]
    simp [hxpp]
  · rw [xRetMstatus_bit (by omega) _ ⟨hxie, hxpie⟩, bit_opAnd, hmask _ hn]
    simp [hxie, hxpp]

/-- Bit `n` of mstatus after the return from `m`, in a hart with the mode `mode` after it. A return
to a mode other than M-mode clears MPRV. -/
def returnMstatusBit (m : TrapMode) (mode mstatus : Int) (n : Nat) : Bool :=
  if n = m.xpie then true
  else if n = m.xie then bit mstatus m.xpie
  else if m.xpp ≤ n ∧ n < m.xpp + m.xppWidth then false
  else bit mstatus n && (decide (mode = 3) || decide (n ≠ 17))

theorem xRet_bit {mask mstatus : Int} {m : TrapMode} {k : Nat} (hs : s.csrMstatus = opAnd mstatus mask)
    (hk : m.xie = k ∧ m.xpie = k + 4 ∧ k + 4 < 17)
    (hmask : ∀ n < 32, bit mask n = !(decide (n = k) || decide (m.xpp ≤ n ∧ n < m.xpp + m.xppWidth)))
    (hfield : ¬(m.xpp ≤ k + 4 ∧ k + 4 < m.xpp + m.xppWidth)) {n : Nat} (hn : n < 32) :
    bit (xRet (2 ^ (k + 4)) s).csrMstatus n = returnMstatusBit m s.privilegeMode mstatus n := by
  have hmprv : ∀ n < 32, bit 0b11111111111111011111111111111111 n = decide (n ≠ 17) := by decide
  have hmasked := xRetMstatus_masked hk.2.2 mstatus hmask hfield hn
  rw [xRet_csrMstatus, hs, returnMstatusBit, hk.1, hk.2.1]
  split
  · rename_i hmachine
    rw [hmasked]
    simp [hmachine]
  · rename_i hmachine
    rw [bit_opAnd, hmasked, hmprv n hn]
    split_ifs with hxpie hxie hxpp
    · have : n ≠ 17 := by omega
      simp [this]
    · have : n ≠ 17 := by omega
      simp [this]
    · rfl
    · simp [hmachine]

/-- The hart after the return from a mode. -/
def returnHart (cfg : Config) (m : TrapMode) (r : Hart) : Hart :=
  if m.mode = 1 then sretHart cfg r else mretHart cfg r

theorem returnHart_supervisor (cfg : Config) (r : Hart) :
    returnHart cfg supervisorMode r = sretHart cfg r := if_pos rfl

theorem returnHart_machine (cfg : Config) (r : Hart) :
    returnHart cfg machineMode r = mretHart cfg r := if_neg (by decide)

theorem sretHart_privilegeMode (cfg : Config) (r : Hart) :
    (sretHart cfg r).privilegeMode = opShr (opAnd r.csrMstatus (2 ^ 8)) 8 := rfl

theorem mretHart_privilegeMode (cfg : Config) (r : Hart) :
    (mretHart cfg r).privilegeMode = opShr (opAnd r.csrMstatus (2 ^ 11 + 2 ^ 12)) 11 := rfl

theorem returnHart_bit {m : TrapMode} (hm : m = supervisorMode ∨ m = machineMode) (r : Hart)
    {n : Nat} (hn : n < 32) :
    bit (returnHart cfg m r).csrMstatus n =
      returnMstatusBit m (returnHart cfg m r).privilegeMode r.csrMstatus n := by
  rcases hm with rfl | rfl
  · rw [returnHart_supervisor]
    exact xRet_bit (m := supervisorMode) (k := 1) rfl (by decide) (by decide) (by decide) hn
  · rw [returnHart_machine]
    exact xRet_bit (m := machineMode) (k := 3) rfl (by decide) (by decide) (by decide) hn

theorem returnHart_frame {m : TrapMode} (hm : m = supervisorMode ∨ m = machineMode) (r : Hart) :
    (returnHart cfg m r).nextPc = r.csr cfg m.csrs.epc ∧
    (returnHart cfg m r).registers = r.registers := by
  rcases hm with rfl | rfl
  · rw [returnHart_supervisor]
    exact ⟨rfl, rfl⟩
  · rw [returnHart_machine]
    exact ⟨rfl, rfl⟩

/-- The return goes back to the mode that the trap has saved. -/
theorem Entered.returnHart_mode {m : TrapMode} {s' r : Hart} (hmode : ModeOk s)
    (h : Entered cfg m s s') (hmstatus : r.csrMstatus = s'.csrMstatus) :
    (returnHart cfg m r).privilegeMode = s.privilegeMode := by
  obtain ⟨h0, h3⟩ := hmode
  rcases h.below with ⟨rfl, hlow⟩ | rfl
  · have hspp := opAnd_two_pow r.csrMstatus (k := 8) (by decide)
    have hbit : bit r.csrMstatus 8 = bit s.privilegeMode 0 := by
      rw [hmstatus, h.mstatus 8 (by decide)]
      rfl
    rw [returnHart_supervisor, sretHart_privilegeMode, hspp, hbit]
    have hcases : s.privilegeMode = 0 ∨ s.privilegeMode = 1 := by omega
    rcases hcases with hm | hm <;> rw [hm] <;> decide
  · have hmpp := opAnd_two_pow_add r.csrMstatus (i := 11) (j := 12) (by decide) (by decide)
    have hbit : bit r.csrMstatus 11 = bit s.privilegeMode 0 ∧
        bit r.csrMstatus 12 = bit s.privilegeMode 1 := by
      rw [hmstatus, h.mstatus 11 (by decide), h.mstatus 12 (by decide)]
      exact ⟨rfl, rfl⟩
    rw [returnHart_machine, mretHart_privilegeMode, hmpp, hbit.1, hbit.2]
    have hcases : s.privilegeMode = 0 ∨ s.privilegeMode = 1 ∨ s.privilegeMode = 2 ∨
      s.privilegeMode = 3 := by omega
    rcases hcases with hm | hm | hm | hm <;> rw [hm] <;> decide

/-- Bit `n` of mstatus after a trap into `m` and its return. -/
theorem Entered.returnMstatusBit_eq {m : TrapMode} {s' : Hart} (h : Entered cfg m s s') (mode : Int)
    {n : Nat} (hn : n < 32) :
    returnMstatusBit m mode s'.csrMstatus n =
      if n = m.xpie then true
      else if n = m.xie then bit s.csrMstatus m.xie
      else if m.xpp ≤ n ∧ n < m.xpp + m.xppWidth then false
      else bit s.csrMstatus n && (decide (mode = 3) || decide (n ≠ 17)) := by
  have hxpie : m.xpie < 32 := by rcases h.below with ⟨rfl, -⟩ | rfl <;> decide
  unfold returnMstatusBit
  split_ifs with h1 h2 h3
  · rfl
  · rw [h.mstatus _ hxpie, trapMstatusBit, if_pos rfl]
  · rfl
  · rw [h.mstatus n hn, trapMstatusBit, if_neg h1, if_neg h2, if_neg h3]

/-! ## The instruction -/

theorem execute_return {s' r : Hart} {d : Fetched} {m : TrapMode} (h : Entered cfg m s s')
    (hr : Returns cfg s' d r) (rs1 rs2 : Int) :
    execute cfg d rs1 rs2 r = .ok .endInstruction (returnHart cfg m r) := by
  have himm := hr.imm
  rw [h.enteredMode_eq] at himm
  have hmode := hr.mode.trans h.mode
  rw [execute_eq cfg rs1 rs2 hr.label]
  change privHandler cfg d.imm r = _
  rw [privHandler, bind_get, himm, hmode]
  rcases h.below with ⟨rfl, -⟩ | rfl
  · have htsr : ¬(r.privilegeMode = 0b01 ∧ opAnd r.csrMstatus 0b10000000000000000000000 ≠ 0) := by
      have hclear := opAnd_two_pow r.csrMstatus (k := 22) (by decide)
      rw [hr.mstatus, hr.tsr h.mode] at hclear
      rintro ⟨-, hset⟩
      rw [hr.mstatus] at hset
      exact hset hclear
    change sret cfg r = _
    rw [sret, bind_get, if_neg htsr, returnHart_supervisor]
    rfl
  · change mret cfg r = _
    rw [mret, bind_get, returnHart_machine]
    rfl

theorem retiredHart_nextPc (cfg : Config) (s : Hart) (e : End) :
    (retiredHart cfg s e).nextPc = s.nextPc := by
  unfold retiredHart incrementInstret writeRd
  dsimp only
  split <;> split <;> rfl

theorem executedHart_return {s' r : Hart} {d : Fetched} {m : TrapMode} (h : Entered cfg m s s')
    (hr : Returns cfg s' d r) (rs1 rs2 : Int) :
    executedHart cfg d rs1 rs2 r = (finish cfg (returnHart cfg m r) .endInstruction).2 := by
  rw [executedHart, stepPoint, execute_return h hr]
  rfl

/-- The return restores the control state if it restores MPRV. -/
theorem restored_iff {s' r : Hart} {d : Fetched} {m : TrapMode} (hmode : ModeOk s)
    (h : Entered cfg m s s') (hr : Returns cfg s' d r) (rs1 rs2 : Int) :
    Restored m s r (executedHart cfg d rs1 rs2 r) ↔
    (mprv s.csrMstatus = true → s.privilegeMode = 3) := by
  have hm : m = supervisorMode ∨ m = machineMode := h.below.imp_left And.left
  obtain ⟨hnextPc, hregisters⟩ := @returnHart_frame cfg m hm r
  have hret := h.returnHart_mode hmode hr.mstatus
  have hframe := finish_system cfg (returnHart cfg m r) .endInstruction
  have heq {n : Nat} (hn : n < 32) : bit (executedHart cfg d rs1 rs2 r).csrMstatus n =
      returnMstatusBit m s.privilegeMode s'.csrMstatus n := by
    rw [executedHart_return h hr, hframe.csrMstatus, returnHart_bit hm r hn, hret, hr.mstatus]
  have hbit {n : Nat} (hn : n < 32) := (heq hn).trans (h.returnMstatusBit_eq s.privilegeMode hn)
  have hfields : m.xie < 32 ∧ m.xpie < 32 ∧ m.xpp + m.xppWidth ≤ 32 ∧ m.xie ≠ m.xpie ∧
    17 ≠ m.xpie ∧ 17 ≠ m.xie ∧
      ¬(m.xpp ≤ m.xpie ∧ m.xpie < m.xpp + m.xppWidth) ∧ ¬(m.xpp ≤ m.xie ∧ m.xie < m.xpp + m.xppWidth) ∧
      ¬(m.xpp ≤ 17 ∧ 17 < m.xpp + m.xppWidth) := by
    rcases hm with rfl | rfl <;> decide
  obtain ⟨hxie, hxpie, hxpp, hne, h17xpie, h17xie, hxppXpie, hxppXie, hxpp17⟩ := hfields
  rw [mprv_eq]
  constructor
  · intro hrestored hmprv
    have h17 := hrestored.mstatus 17 (by decide) h17xpie hxpp17
    rw [hbit (by decide), if_neg h17xpie, if_neg h17xie, if_neg hxpp17, hmprv] at h17
    simpa using h17
  · intro hmprv
    refine ⟨?_, ?_, ?_, ?_, fun n hlo hhi => ?_, fun n hn hne' hxpp' => ?_, ?_⟩
    · rw [executedHart_return h hr, hframe.privilegeMode, hret]
    · rw [executedHart_return h hr, finish_eq cfg _ rfl, endInstructionTrap_snd]
      change (retiredHart cfg _ _).nextPc = _
      have hepc := hr.epc
      rw [h.enteredMode_eq, h.epc] at hepc
      rw [retiredHart_nextPc, hnextPc, hepc]
    · rw [hbit hxie, if_neg hne, if_pos rfl]
    · rw [hbit hxpie, if_pos rfl]
    · have hneXpie : n ≠ m.xpie := fun heq => hxppXpie (heq ▸ ⟨hlo, hhi⟩)
      have hneXie : n ≠ m.xie := fun heq => hxppXie (heq ▸ ⟨hlo, hhi⟩)
      rw [hbit (lt_of_lt_of_le hhi hxpp), if_neg hneXpie, if_neg hneXie, if_pos ⟨hlo, hhi⟩]
    · rw [hbit hn, if_neg hne', if_neg hxpp']
      split_ifs with hn'
      · rw [hn']
      · by_cases h17 : n = 17
        · subst h17
          cases hb : bit s.csrMstatus 17
          · rfl
          · simp [hmprv hb]
        · simp [h17]
    · rw [executedHart_return h hr]
      funext i
      rw [finish_registers cfg _ rfl, if_neg (by simp [End.rdId]), hregisters]

/-! ## Runs -/

/-- In every run, whatever its stores overwrite: a trap and the return from it restore the control
state if and only if the trap was not taken below M-mode with MPRV set. In a run whose stores go to
mapped addresses and store words it never is. -/
theorem trap_return_iff (cfg : Config) {m m' : Machine} (hreach : Reaches cfg (fun _ _ => True) m)
    (htrap : TrapStep cfg m m') {d : Fetched} {r : Hart} (hr : Returns cfg m'.hart d r) (rs1 rs2 : Int) :
    m'.hart.registers = m.hart.registers ∧
    (Restored (enteredMode m'.hart) m.hart r (executedHart cfg d rs1 rs2 r) ↔
      (mprv m.hart.csrMstatus = true → m.hart.privilegeMode = 3)) ∧
    (Reaches cfg (StoresOk cfg) m →
      Restored (enteredMode m'.hart) m.hart r (executedHart cfg d rs1 rs2 r)) := by
  obtain ⟨mode, hentered⟩ := htrap.entered hreach.modeOk
  have hiff := restored_iff hreach.modeOk hentered hr rs1 rs2
  rw [hentered.enteredMode_eq]
  exact ⟨hentered.registers, hiff, fun hgood => hiff.mpr hgood.privilegeOk.2.machineMprv⟩

/-- The fetched MRET. -/
def mretFetched : Fetched :=
  { opId := -12, imm := 770, result := 8796093022208, rdId := 0, rs1Id := 0, rs2Id := 2 }

/-- A hart that has trapped into M-mode is right at its return. -/
theorem returns_self {s' : Hart} (h : s'.privilegeMode = 3) : Returns cfg s' mretFetched s' where
  label := by decide +kernel
  imm := by
    rw [enteredMode, h]
    rfl
  mode := rfl
  mstatus := rfl
  epc := rfl
  tsr h1 := absurd (h.symm.trans h1) (by decide)

/-- The ECALL of `ecallAfterMtvec` at its trap. -/
@[irreducible] def ecallTrap : Machine :=
  (Machine.start (smallBuild (romOfWords ecallAfterMtvec)) fun _ _ => 0).run
    (smallBuild (romOfWords ecallAfterMtvec))
    (List.replicate 7 .step)

theorem trap_return_iff_ecall :
    Restored (enteredMode (ecallTrap.step (smallBuild (romOfWords ecallAfterMtvec))).hart) ecallTrap.hart
      (ecallTrap.step (smallBuild (romOfWords ecallAfterMtvec))).hart
      (executedHart (smallBuild (romOfWords ecallAfterMtvec)) mretFetched 0 0
        (ecallTrap.step (smallBuild (romOfWords ecallAfterMtvec))).hart) := by
  have hstart : Reaches (smallBuild (romOfWords ecallAfterMtvec)) (fun _ _ => True)
      (Machine.start (smallBuild (romOfWords ecallAfterMtvec)) fun _ _ => 0) := .init ⟨_, rfl⟩
  have hreach : Reaches (smallBuild (romOfWords ecallAfterMtvec)) (fun _ _ => True) ecallTrap := by
    unfold ecallTrap
    exact hstart.run (List.replicate 7 .step) fun _ _ => trivial
  have htrap : TrapStep (smallBuild (romOfWords ecallAfterMtvec)) ecallTrap _ :=
    .exception { mcause := 11, mtval := 0 } (by decide +kernel)
  have hmode : (ecallTrap.step (smallBuild (romOfWords ecallAfterMtvec))).hart.privilegeMode =
    3 := by decide +kernel
  have hmachine : ecallTrap.hart.privilegeMode = 3 := by decide +kernel
  exact (trap_return_iff _ hreach htrap (returns_self hmode) 0 0).2.1.mpr fun _ => hmachine

/-- `lui x1, 0x40753`, `addi x1, x1, 0x423`, `lui x3, 0x992` and `sw x1, 0(x3)`, below RAM: the word
is decoded into the entry of CSR 0x800 in CSR_LABELS. Then `csrrwi x0, mepc, 28`, `csrrwi x0, mtvec,
16` and `mret`, and in U-mode `lui x2, 0x20`, `csrrw x0, 0x800, x2` and `ecall`. -/
def swCsrEntry : List Nat :=
  [0x407530b7, 0x42308093, 0x009921b7, 0x0011a023, 0x341e5073, 0x30585073,
    0x30200073, 0x00020137, 0x80011073, 0x00000073]

/-- The ECALL of `swCsrEntry` at its trap. -/
@[irreducible] def swCsrEntryTrap : Machine :=
  (Machine.start (smallBuild (romOfWords swCsrEntry)) fun _ _ => 0).run
    (smallBuild (romOfWords swCsrEntry))
    (List.replicate 33 .step)

/-- After a store below RAM, U-mode sets MPRV, and the return from its ECALL clears it. -/
theorem swCsrEntry_loses_mprv :
    Reaches (smallBuild (romOfWords swCsrEntry)) (fun _ _ => True) swCsrEntryTrap ∧
    TrapStep (smallBuild (romOfWords swCsrEntry)) swCsrEntryTrap
      (swCsrEntryTrap.step (smallBuild (romOfWords swCsrEntry))) ∧
    Returns (smallBuild (romOfWords swCsrEntry))
      (swCsrEntryTrap.step (smallBuild (romOfWords swCsrEntry))).hart mretFetched
      (swCsrEntryTrap.step (smallBuild (romOfWords swCsrEntry))).hart ∧
    ¬Restored (enteredMode (swCsrEntryTrap.step (smallBuild (romOfWords swCsrEntry))).hart)
      swCsrEntryTrap.hart
      (swCsrEntryTrap.step (smallBuild (romOfWords swCsrEntry))).hart
      (executedHart (smallBuild (romOfWords swCsrEntry)) mretFetched 0 0
        (swCsrEntryTrap.step (smallBuild (romOfWords swCsrEntry))).hart) := by
  have hstart : Reaches (smallBuild (romOfWords swCsrEntry)) (fun _ _ => True)
      (Machine.start (smallBuild (romOfWords swCsrEntry)) fun _ _ => 0) := .init ⟨_, rfl⟩
  have hmode : (swCsrEntryTrap.step (smallBuild (romOfWords swCsrEntry))).hart.privilegeMode =
    3 := by decide +kernel
  refine ⟨?_, .exception { mcause := 8, mtval := 0 } (by decide +kernel),
    returns_self hmode, fun h => ?_⟩
  · unfold swCsrEntryTrap
    exact hstart.run (List.replicate 33 .step) fun _ _ => trivial
  · have hentered : enteredMode (swCsrEntryTrap.step (smallBuild (romOfWords swCsrEntry))).hart =
        machineMode := by
      rw [enteredMode, hmode]
      rfl
    have h17 := h.mstatus 17 (by decide) (by rw [hentered]; decide) (by rw [hentered]; decide)
    have hafter : bit (executedHart (smallBuild (romOfWords swCsrEntry)) mretFetched 0 0
        (swCsrEntryTrap.step (smallBuild (romOfWords swCsrEntry))).hart).csrMstatus 17 ≠
        bit swCsrEntryTrap.hart.csrMstatus 17 := by decide +kernel
    exact hafter h17

end Mlogv32.Cpu
