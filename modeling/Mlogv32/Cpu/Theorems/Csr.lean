import Mlogv32.Cpu.Controller
import Mlogv32.Cpu.Lemmas.Csr
import Mlogv32.Cpu.Lemmas.Fetched
import Mlogv32.Cpu.Lemmas.Finish
import Mlogv32.Mlog.Bits

/-!
# CSR writes and interrupts

What the writes of mip and sip can change, and which writes make the hart look for interrupts again.
-/

namespace Mlogv32.Cpu
open Mlog Logic

def sipCsr : Nat := 0x144
def mipCsr : Nat := 0x344

/-! ## Pending bits of the hardware -/

/-- A write of mip or sip keeps the bits MEIP, MTIP and STIP and lowers no internal flag. Through
sip, S-mode changes at most SSIP, and only if it is delegated. -/
structure KeepsPending (cfg : Config) (d : Fetched) (s s' : Hart) : Prop where
  hardware : ∀ n ∈ [11, 7, 5], bit s'.csrMip n = bit s.csrMip n
  flags : ∀ n ∈ [30, 31], bit s.csrMip n = true → bit s'.csrMip n = true
  supervisor : d.imm = sipCsr → s.privilegeMode = 1 → ∀ n < 30, bit s'.csrMip n ≠ bit s.csrMip n →
    n = 1 ∧ bit (s.csr cfg midelegCsr) 1 = true

/-- The operation inverts a bit whose value is `old`, for the bit `x` of the operand. -/
def ModifyCsrOp.flips (op : ModifyCsrOp) (x old : Bool) : Bool :=
  match op with
  | .rw => x != old
  | .rs => x && !old
  | .rc => x && old

/-- The bits of mip that a write of sip must not invert. A flag must not be lowered. -/
def MustKeep (s : Hart) (n : Nat) : Prop :=
  n ∈ [11, 7, 5] ∨ (n = 31 ∧ bit s.csrMip 31 = true) ∨ (s.privilegeMode = 1 ∧ n < 30 ∧ n ≠ 1)

/-- The instruction writes sip and inverts a delegated bit that it must keep. -/
def FlipsDelegated (cfg : Config) (d : Fetched) (op : ModifyCsrOp) (x : Int) (s : Hart) : Prop :=
  d.imm = sipCsr ∧ ¬op.readsOnly d ∧
  ∃ n < 32, MustKeep s n ∧ bit (s.csr cfg midelegCsr) n = true ∧
  op.flips (bit x n) (bit s.csrMip n) = true

theorem bit_word_mask {n : Nat} (hn : n < 32) : bit 0xffffffff n = true := by
  interval_cases n <;> decide

theorem csrEntry_sip : csrEntry sipCsr = { number := 0x144, read := .sip, write := .sip } := by decide

theorem csrEntry_mip : csrEntry mipCsr =
    { number := 0x344, read := .mip, write := .mip, mask := 0b00000000000000000000001000000010 } := by
  decide

/-- A bit of mip after a write of sip. -/
theorem sip_bit (op : ModifyCsrOp) (x mip mideleg : Int) {n : Nat} (hn : n < 32) :
    bit (opOr (opAnd mip (opNot mideleg))
      (opAnd (op.masked (csrEntry sipCsr) x (opAnd mip mideleg)) mideleg)) n =
      (bit mip n ^^ (bit mideleg n && op.flips (bit x n) (bit mip n))) := by
  have hmask : bit ((csrEntry sipCsr).mask : Int) n = true := by
    rw [csrEntry_sip]
    exact bit_word_mask hn
  rw [ModifyCsrOp.masked, bit_opOr, bit_opAnd, bit_opAnd, bit_opAnd, bit_opNot _ (by omega), hmask]
  cases op <;> simp only [ModifyCsrOp.result, ModifyCsrOp.flips, bit_opOr, bit_opAnd]
  · cases bit mip n <;> cases bit mideleg n <;> cases bit x n <;> rfl
  · cases bit mip n <;> cases bit mideleg n <;> cases bit x n <;> rfl
  · rw [bit_opNot _ (by omega)]
    cases bit mip n <;> cases bit mideleg n <;> cases bit x n <;> rfl

theorem keepsPending_mip {cfg : Config} {d : Fetched} {s s' : Hart}
    (himm : d.imm = mipCsr) (result : Int)
    (hresult : ∀ n ∈ [11, 7, 5], bit result n = false)
    (hs : s'.csrMip = opOr (opOr (opAnd s.csrMip 0b11111111111111111111110111111101) result)
      0b01000000000000000000000000000000) : KeepsPending cfg d s s' := by
  have hbit (n : Nat) : bit s'.csrMip n =
    ((bit s.csrMip n && bit 0b11111111111111111111110111111101 n || bit result n) ||
      bit 0b01000000000000000000000000000000 n) := by
    rw [hs, bit_opOr, bit_opOr, bit_opAnd]
  constructor
  · intro n hn
    have hmask : bit 0b11111111111111111111110111111101 n = true ∧
        bit 0b01000000000000000000000000000000 n = false := by
      simp only [List.mem_cons, List.not_mem_nil, or_false] at hn
      rcases hn with rfl | rfl | rfl <;> decide
    rw [hbit, hmask.1, hmask.2, hresult n hn, Bool.and_true, Bool.or_false, Bool.or_false]
  · intro n hn hold
    have hmask : bit 0b11111111111111111111110111111101 n = true ∨
        bit 0b01000000000000000000000000000000 n = true := by
      simp only [List.mem_cons, List.not_mem_nil, or_false] at hn
      rcases hn with rfl | rfl <;> decide
    rw [hbit, hold]
    rcases hmask with hmask | hmask <;> simp [hmask]
  · intro hsip
    exact absurd (himm.symm.trans hsip) (by decide)

/-- A write of sip, from the bits of mip before and after. -/
theorem keepsPending_sip_iff {cfg : Config} {d : Fetched} {op : ModifyCsrOp} {x : Int} {s s' : Hart}
    (himm : d.imm = sipCsr) (hwrites : ¬op.readsOnly d)
    (hbit : ∀ n < 32, bit s'.csrMip n = ((bit s.csrMip n ^^
      (bit (s.csr cfg midelegCsr) n && op.flips (bit x n) (bit s.csrMip n))) || decide (n = 30))) :
    KeepsPending cfg d s s' ↔ ¬FlipsDelegated cfg d op x s := by
  constructor
  · rintro hkeeps ⟨-, -, n, hn, hmust, hdel, hflip⟩
    have hne (h30 : n ≠ 30) : bit s'.csrMip n = !bit s.csrMip n := by
      rw [hbit n hn, hdel, hflip, decide_eq_false h30, Bool.and_true, Bool.xor_true, Bool.or_false]
    rcases hmust with hmem | ⟨rfl, hold⟩ | ⟨hmode, hlt, h1⟩
    · have h30 : n ≠ 30 := by
        rintro rfl
        exact absurd hmem (by decide)
      have h := hkeeps.hardware n hmem
      rw [hne h30] at h
      exact Bool.not_ne_self _ h
    · have h := hkeeps.flags 31 (by decide) hold
      rw [hne (by decide), hold] at h
      exact absurd h (by decide)
    · have h := hkeeps.supervisor himm hmode n hlt (by
        rw [hne (by omega)]
        exact Bool.not_ne_self _)
      exact h1 h.1
  · intro hflips
    have hkeep (n : Nat) (hn : n < 32) (hmust : MustKeep s n) :
        (bit (s.csr cfg midelegCsr) n && op.flips (bit x n) (bit s.csrMip n)) = false := by
      cases hb : bit (s.csr cfg midelegCsr) n && op.flips (bit x n) (bit s.csrMip n) with
      | false => rfl
      | true =>
          obtain ⟨hdel, hflip⟩ := Bool.and_eq_true_iff.mp hb
          exact absurd ⟨himm, hwrites, n, hn, hmust, hdel, hflip⟩ hflips
    constructor
    · intro n hmem
      have hn : n < 32 ∧ n ≠ 30 := by
        simp only [List.mem_cons, List.not_mem_nil, or_false] at hmem
        omega
      rw [hbit n hn.1, hkeep n hn.1 (Or.inl hmem), decide_eq_false hn.2, Bool.xor_false, Bool.or_false]
    · intro n hmem hold
      simp only [List.mem_cons, List.not_mem_nil, or_false] at hmem
      rcases hmem with rfl | rfl
      · rw [hbit 30 (by decide)]
        simp
      · rw [hbit 31 (by decide), hkeep 31 (by decide) (Or.inr (Or.inl ⟨rfl, hold⟩)), hold]
        rfl
    · intro _ hmode n hn hne
      by_cases h1 : n = 1
      · subst h1
        refine ⟨rfl, ?_⟩
        cases hdel : bit (s.csr cfg midelegCsr) 1 with
        | true => rfl
        | false =>
            rw [hbit 1 (by decide), hdel] at hne
            exact absurd (by simp) hne
      · rw [hbit n (by omega), hkeep n (by omega) (Or.inr (Or.inr ⟨hmode, hn, h1⟩)),
          decide_eq_false (show n ≠ 30 by omega), Bool.xor_false, Bool.or_false] at hne
        exact absurd rfl hne

/-- A write of mip or sip keeps the pending bits of the hardware if and only if it does not invert a
delegated bit that it must keep. -/
theorem keepsPending_iff {cfg : Config} {d : Fetched} {rs1 rs2 x : Int} {s s' : Hart} {label : Label}
    {op : ModifyCsrOp} {e : End} (hlabel : labels (d.opId + 192) = some label)
    (hop : csrOperand d rs1 label = some (op, x)) (himm : d.imm = mipCsr ∨ d.imm = sipCsr)
    (htable : CsrLabelsOk cfg s) (hx : execute cfg d rs1 rs2 s = .ok e s') :
    KeepsPending cfg d s (finish cfg s' e).2 ↔ ¬FlipsDelegated cfg d op x s := by
  have hrange : 0 ≤ d.imm ∧ d.imm < 4096 := by
    unfold mipCsr sipCsr at himm
    omega
  rw [execute_csr hlabel hop rs2] at hx
  obtain ⟨-, rd, hread, hdone⟩ := modifyCsr_ok hrange htable hx
  by_cases hreads : op.readsOnly d
  · rw [if_pos hreads] at hdone
    obtain ⟨rfl, rfl⟩ := hdone
    have hmip : (finish cfg s' (.endInstructionWithRd d.rdId rd)).2.csrMip = s'.csrMip :=
      finish_csrMip cfg s' rfl
    refine iff_of_true ⟨?_, ?_, ?_⟩ fun h => h.2.1 hreads
    · intro n _
      rw [hmip]
    · intro n _ h
      rwa [hmip]
    · intro _ _ n _ h
      exact absurd (by rw [hmip]) h
  rw [if_neg hreads] at hdone
  obtain ⟨-, rfl, rfl⟩ := csrEntry_csrWrite_ok hdone
  rcases himm with himm | himm
  · -- mip has a write mask of its own
    refine iff_of_true ?_ fun h => absurd (himm.symm.trans h.1) (by decide)
    rw [himm]
    change KeepsPending cfg d s (finish cfg (csrWriteHart cfg (.var mipCsr)
      (op.masked (csrEntry mipCsr) x rd) s (csrEntry mipCsr).write)
        (csrWriteEnd d.rdId rd (csrEntry mipCsr).write)).2
    rw [csrEntry_mip]
    refine keepsPending_mip himm (opAnd (op.result x rd) 0b00000000000000000000001000000010)
      (fun n hn => ?_) (finish_csrMip cfg _ rfl)
    have hmask : bit 0b00000000000000000000001000000010 n = false := by
      simp only [List.mem_cons, List.not_mem_nil, or_false] at hn
      rcases hn with rfl | rfl | rfl <;> decide
    rw [bit_opAnd, hmask, Bool.and_false]
  · have hrd : rd = opAnd s.csrMip (s.csr cfg midelegCsr) := by
      rw [himm] at hread
      change csrRead cfg sipCsr (.var sipCsr) (csrEntry sipCsr).read s = _ at hread
      rw [csrEntry_sip] at hread
      exact (EStateM.Result.ok.inj hread).1.symm
    refine keepsPending_sip_iff himm hreads fun n hn => ?_
    have hflag : bit 0b01000000000000000000000000000000 n = decide (n = 30) :=
      bit_two_pow (k := 30) (by decide) n
    rw [himm, hrd]
    change bit (finish cfg (csrWriteHart cfg (.var sipCsr) (op.masked (csrEntry sipCsr) x
      (opAnd s.csrMip (s.csr cfg midelegCsr))) s (csrEntry sipCsr).write)
      (csrWriteEnd d.rdId (opAnd s.csrMip (s.csr cfg midelegCsr)) (csrEntry sipCsr).write)).2.csrMip
        n = _
    rw [← sip_bit op x s.csrMip (s.csr cfg midelegCsr) hn, ← hflag, ← bit_opOr,
      show (csrEntry sipCsr).write = .sip by rw [csrEntry_sip]]
    exact congrArg (bit · n) (finish_csrMip cfg _ rfl)

/-! ## STIP cleared through sip -/

/-- The fetched instruction `csrw sip, x0`. -/
def csrwSip : Fetched := { opId := -11, imm := 0x144, result := 0, rdId := 0, rs1Id := 0, rs2Id := 0 }

/-- A hart of the small build in S-mode: STI is delegated and pending. -/
def stipHart : Hart :=
  { bareHart with
    privilegeMode := 1
    effectivePrivilegeMode := 1
    csrMip := 0b100000
    procs :=
      writeProc bareHart.procs (smallBuild fun _ _ => none).csrs (.var midelegCsr) (.num 0b100000) }

theorem stipHart_csrLabels : CsrLabelsOk (smallBuild fun _ _ => none) stipHart := by
  intro i
  have hne : (smallBuild fun _ _ => none).csrLabels ≠ (smallBuild fun _ _ => none).csrs :=
    (smallBuild fun _ _ => none).csrs_ne_csrLabels.symm
  simp only [stipHart, writeProc, hne, false_and, if_false]
  exact start_csrLabels (smallBuild fun _ _ => none) (fun _ _ => 0) i

theorem stipHart_mideleg : stipHart.csr (smallBuild fun _ _ => none) midelegCsr = 0b100000 := by
  simp [stipHart, Hart.csr, writeProc, Value.toNum]

theorem stipHart_csrw : ∃ e s', execute (smallBuild fun _ _ => none) csrwSip 0 0 stipHart = .ok e s' ∧
    e = .endInstructionWithRdAndFireInterrupts 0 0b100000 ∧ s'.csrMip = 0 := by
  have hlabel : labels (csrwSip.opId + 192) = some .CSRRW := by decide +kernel
  have hread : csrRead (smallBuild fun _ _ => none) csrwSip.imm (.var csrwSip.imm.toNat)
      (csrEntry csrwSip.imm.toNat).read stipHart = .ok 0b100000 stipHart := by
    rw [show csrwSip.imm.toNat = sipCsr from rfl, csrEntry_sip]
    simp only [csrRead, bind_get, stipHart_mideleg]
    rfl
  have hwrites : ¬ModifyCsrOp.rw.readsOnly csrwSip := by decide
  have hx :=
    modifyCsr_write (x := 0) (by decide) stipHart_csrLabels (by decide) hread hwrites (by decide)
  rw [← execute_csr hlabel rfl 0] at hx
  refine ⟨_, _, hx, ?_, ?_⟩
  · rw [show csrwSip.imm.toNat = sipCsr from rfl, csrEntry_sip]
    rfl
  · rw [show csrwSip.imm.toNat = sipCsr from rfl, csrEntry_sip]
    simp only [csrWriteHart, stipHart_mideleg]
    decide

theorem keepsPending_iff_csrwSip :
    ∃ e s', execute (smallBuild fun _ _ => none) csrwSip 0 0 stipHart = .ok e s' ∧
    (KeepsPending (smallBuild fun _ _ => none) csrwSip stipHart
      (finish (smallBuild fun _ _ => none) s' e).2 ↔
      ¬FlipsDelegated (smallBuild fun _ _ => none) csrwSip .rw 0 stipHart) := by
  have hlabel : labels (csrwSip.opId + 192) = some .CSRRW := by decide +kernel
  obtain ⟨e, s', hx, -, -⟩ := stipHart_csrw
  exact ⟨e, s', hx, keepsPending_iff hlabel rfl (Or.inr rfl) stipHart_csrLabels hx⟩

/-- The write clears STIP. -/
theorem csrwSip_clears_stip :
    ∃ e s', execute (smallBuild fun _ _ => none) csrwSip 0 0 stipHart = .ok e s' ∧
    bit stipHart.csrMip 5 = true ∧ bit (finish (smallBuild fun _ _ => none) s' e).2.csrMip 5 = false ∧
    ¬KeepsPending (smallBuild fun _ _ => none) csrwSip stipHart
      (finish (smallBuild fun _ _ => none) s' e).2 := by
  obtain ⟨e, s', hx, rfl, hmip⟩ := stipHart_csrw
  have hbefore : bit stipHart.csrMip 5 = true := by decide
  have hafter : bit (finish (smallBuild fun _ _ => none) s'
      (.endInstructionWithRdAndFireInterrupts 0 0b100000)).2.csrMip 5 = false := by
    rw [finish_csrMip _ _ rfl, hmip]
    decide
  refine ⟨_, s', hx, hbefore, hafter, fun hkeeps => ?_⟩
  have h := hkeeps.hardware 5 (by decide)
  rw [hbefore, hafter] at h
  cases h

/-! ## Interrupts after a write -/

/-- Events that do not let the worker run: ticks, hand-offs and the devices. -/
def Event.isQuiet : Event → Bool
  | .handOff | .tick _ | .device _ => true
  | .step | .reset => false

/-- On every schedule, the hart comes to `fire_interrupts` before it fetches an instruction. -/
inductive FiresBeforeFetch (cfg : Config) : Machine → Prop
  | fire {m : Machine} (h : m.point = .fireInterrupts) : FiresBeforeFetch cfg m
  | step {m : Machine} (h : m.point ≠ .main)
      (hnext : ∀ es : List Event, (∀ e ∈ es, e.isQuiet = true) →
        FiresBeforeFetch cfg ((m.run cfg es).step cfg)) :
      FiresBeforeFetch cfg m

/-- The CSRs that the interrupt conditions depend on: mstatus, sstatus, mie, sie, mip, sip and
mideleg. -/
def interruptCsrs : List Int := [0x300, 0x100, 0x304, 0x104, 0x344, 0x144, 0x303]

/-- The instruction writes one of `interruptCsrs`, or is SRET or MRET. -/
def ChangesInterrupts (d : Fetched) (rs1 : Int) (s : Hart) (label : Label) : Prop :=
  (∃ op x, csrOperand d rs1 label = some (op, x) ∧ d.imm ∈ interruptCsrs ∧ ¬op.readsOnly d) ∨
  (label = .PRIV ∧ priv d.imm s.privilegeMode ∈ [.SRET, .MRET])

/-- The instruction writes mideleg while no flag of mip is raised. -/
def WritesMidelegQuietly (d : Fetched) (rs1 : Int) (s : Hart) (label : Label) : Prop :=
  (∃ op x, csrOperand d rs1 label = some (op, x)) ∧ d.imm = midelegCsr ∧ s.csrMip < 2 ^ 30

/-- The end raises a flag. -/
def End.raises : End → Bool
  | .endInstructionWithRdAndFireInterrupts _ _ | .endInstructionWithRdAndPollInterrupts _ _ => true
  | _ => false

/-- The flags of mip make the hart look for interrupts when the instruction ends. -/
def Flagged (e : End) (mip : Int) : Prop := IsWord mip ∧ (e.raises = true ∨ 2 ^ 30 ≤ mip)

theorem Flagged.raise {e : End} {mip : Int} (h : Flagged e mip) : 2 ^ 30 ≤ e.raise mip := by
  obtain ⟨hword, hflag⟩ := h
  have hfire : IsWord 0b01000000000000000000000000000000 := by decide
  cases e with
  | endInstructionWithRdAndFireInterrupts rdId rd => exact hword.le_opOr hfire
  | endInstructionWithRdAndPollInterrupts rdId rd => exact (hword.opOr (by decide)).le_opOr hfire
  | _ => exact hflag.resolve_left Bool.false_ne_true

/-- Quiet events keep the point and the flags. -/
theorem apply_quiet (cfg : Config) {m : Machine} {e : End} {ev : Event} (hpoint : m.point = .ending e)
    (hflagged : Flagged e m.hart.csrMip) (hev : ev.isQuiet = true) :
    (m.apply cfg ev).point = .ending e ∧ Flagged e (m.apply cfg ev).hart.csrMip := by
  have hrunning : m.point.isRunning = true := by rw [hpoint]; rfl
  cases ev with
  | step => cases hev
  | reset => cases hev
  | handOff =>
      simp only [Machine.apply, hrunning, if_true]
      refine ⟨hpoint, ?_⟩
      unfold incrementMcycle
      dsimp only
      split
      · exact hflagged
      · exact hflagged
  | tick delta =>
      simp only [Machine.apply, hrunning, if_true]
      have hraised : IsWord 0b11000000000000000000000000000000 := by decide
      refine ⟨hpoint, hflagged.1.opOr hraised, Or.inr ?_⟩
      have hle := hflagged.1.le_opOr hraised
      change (2 : Int) ^ 30 ≤ opOr m.hart.csrMip 0b11000000000000000000000000000000
      omega
  | device uarts => exact ⟨hpoint, hflagged⟩

theorem run_quiet (cfg : Config) {m : Machine} {e : End} {es : List Event} (hpoint : m.point = .ending e)
    (hflagged : Flagged e m.hart.csrMip) (hes : ∀ ev ∈ es, ev.isQuiet = true) :
    (m.run cfg es).point = .ending e ∧ Flagged e (m.run cfg es).hart.csrMip := by
  induction es generalizing m with
  | nil => exact ⟨hpoint, hflagged⟩
  | cons ev es ih =>
      have hnext := apply_quiet cfg hpoint hflagged (hes ev List.mem_cons_self)
      exact ih hnext.1 hnext.2 fun e' he' => hes e' (List.mem_cons_of_mem _ he')

theorem run_quiet_point (cfg : Config) {m : Machine} {es : List Event}
    (hes : ∀ ev ∈ es, ev.isQuiet = true) : (m.run cfg es).point = m.point := by
  induction es generalizing m with
  | nil => rfl
  | cons ev es ih =>
      have hev := hes ev List.mem_cons_self
      refine (ih fun e' he' => hes e' (List.mem_cons_of_mem _ he')).trans ?_
      cases ev with
      | step => cases hev
      | reset => cases hev
      | handOff =>
          simp only [Machine.apply]
          split <;> rfl
      | tick delta =>
          simp only [Machine.apply]
          split <;> rfl
      | device uarts => rfl

theorem endInstructionTrap_flagged {s : Hart} (h : 2 ^ 30 ≤ s.csrMip) :
    (endInstructionTrap s).1 = .fireInterrupts ∨ (endInstructionTrap s).1 = .pollInterrupts := by
  rw [endInstructionTrap_fst, if_neg (by omega)]
  split
  · exact Or.inl rfl
  · exact Or.inr rfl

theorem firesBeforeFetch_of_flagged (cfg : Config) {m : Machine} {e : End} (hpoint : m.point = .ending e)
    (hretires : e.retires = true) (hflagged : Flagged e m.hart.csrMip) : FiresBeforeFetch cfg m := by
  refine .step (by rw [hpoint]; exact nofun) fun es hes => ?_
  obtain ⟨hpoint', hflagged'⟩ := run_quiet cfg hpoint hflagged hes
  have hstep : ((m.run cfg es).step cfg).point = .fireInterrupts ∨
      ((m.run cfg es).step cfg).point = .pollInterrupts := by
    simp only [Machine.step, stepPoint, hpoint']
    rw [finish_eq cfg _ hretires]
    refine endInstructionTrap_flagged ?_
    rw [retiredHart_csrMip]
    exact hflagged'.raise
  rcases hstep with hfire | hpoll
  · exact .fire hfire
  · refine .step (by rw [hpoll]; exact nofun) fun es' hes' => .fire ?_
    simp only [Machine.step, stepPoint, run_quiet_point cfg hes']
    simp only [Machine.step, stepPoint] at hpoll
    rw [hpoll]

theorem csrWriteHart_csrMip_word (cfg : Config) (csrVar : Value) {result : Int} {s : Hart}
    (w : CsrWrite) (hresult : IsWord result) (hs : IsWord s.csrMip) :
    IsWord (csrWriteHart cfg csrVar result s w).csrMip := by
  cases w with
  | sip => exact (hs.opAnd _).opOr (hresult.opAnd _)
  | mip => exact (hs.opAnd _).opOr hresult
  | _ => exact hs

theorem csrEntry_interrupt : ∀ n ∈ interruptCsrs, n ≠ midelegCsr →
    (csrEntry n.toNat).write ∈ [.mstatus, .sstatus, .mie, .sie, .mip, .sip] := by decide

theorem csrEntry_mideleg : (csrEntry midelegCsr).write = .csrs := by decide

/-- Without a write of mideleg, the instruction raises a flag. -/
theorem flagged_of_changes {cfg : Config} {d : Fetched} {rs1 rs2 : Int} {s s' : Hart}
    {label : Label} {e : End} (hlabel : labels (d.opId + 192) = some label)
    (hchanges : ChangesInterrupts d rs1 s label) (htable : CsrLabelsOk cfg s)
    (hmip : IsWord s.csrMip) (hx : execute cfg d rs1 rs2 s = .ok e s')
    (hquiet : ¬WritesMidelegQuietly d rs1 s label) : e.retires = true ∧ Flagged e s'.csrMip := by
  rcases hchanges with ⟨op, x, hop, himm, hwrites⟩ | ⟨rfl, hret⟩
  · have hrange : 0 ≤ d.imm ∧ d.imm < 4096 := by
      simp only [interruptCsrs, List.mem_cons, List.not_mem_nil, or_false] at himm
      omega
    rw [execute_csr hlabel hop rs2] at hx
    obtain ⟨-, rd, -, hdone⟩ := modifyCsr_ok hrange htable hx
    rw [if_neg hwrites] at hdone
    obtain ⟨-, rfl, rfl⟩ := csrEntry_csrWrite_ok hdone
    have hword := csrWriteHart_csrMip_word cfg (.var d.imm.toNat) (csrEntry d.imm.toNat).write
      (masked_word op d.imm.toNat x rd) hmip
    by_cases hmideleg : d.imm = midelegCsr
    · have hflags : 2 ^ 30 ≤ s.csrMip := by
        by_contra hlow
        exact hquiet ⟨⟨op, x, hop⟩, hmideleg, by omega⟩
      rw [hmideleg, Int.toNat_natCast, csrEntry_mideleg] at hword ⊢
      exact ⟨rfl, hword, Or.inr hflags⟩
    · have hwrite := csrEntry_interrupt d.imm himm hmideleg
      simp only [List.mem_cons, List.not_mem_nil, or_false] at hwrite
      rcases hwrite with hw | hw | hw | hw | hw | hw <;> rw [hw] at hword ⊢ <;>
        exact ⟨rfl, hword, Or.inl rfl⟩
  · have hfire : IsWord 0b01000000000000000000000000000000 := by decide
    have hraised : Flagged .endInstruction (opOr s.csrMip 0b01000000000000000000000000000000) :=
      ⟨hmip.opOr hfire, Or.inr (hmip.le_opOr hfire)⟩
    have hhandler : execute cfg d rs1 rs2 = privHandler cfg d.imm := by
      unfold execute
      rw [hlabel]
      rfl
    rw [hhandler, privHandler, bind_get] at hx
    simp only [List.mem_cons, List.not_mem_nil, or_false] at hret
    rcases hret with hret | hret
    · rw [hret] at hx
      change sret cfg s = _ at hx
      rw [sret, bind_get] at hx
      split at hx
      · cases hx
      · obtain ⟨rfl, rfl⟩ := EStateM.Result.ok.inj hx
        exact ⟨rfl, hraised⟩
    · rw [hret] at hx
      obtain ⟨rfl, rfl⟩ := EStateM.Result.ok.inj hx
      exact ⟨rfl, hraised⟩

/-- A write of mideleg with no flag raised goes on to the next fetch. -/
theorem not_firesBeforeFetch_of_mideleg {cfg : Config} {d : Fetched} {rs1 rs2 x : Int} {s s' : Hart}
    {label : Label} {op : ModifyCsrOp} {e : End} (c : Controller)
    (hlabel : labels (d.opId + 192) = some label) (hop : csrOperand d rs1 label = some (op, x))
    (himm : d.imm = midelegCsr) (hlow : s.csrMip < 2 ^ 30) (htable : CsrLabelsOk cfg s)
    (hx : execute cfg d rs1 rs2 s = .ok e s') :
    ¬FiresBeforeFetch cfg { point := .ending e, hart := s', controller := c } := by
  have hend : e.retires = true ∧ e.raise s'.csrMip < 2 ^ 30 := by
    have hrange : 0 ≤ d.imm ∧ d.imm < 4096 := by
      unfold midelegCsr at himm
      omega
    rw [execute_csr hlabel hop rs2] at hx
    obtain ⟨-, rd, -, hdone⟩ := modifyCsr_ok hrange htable hx
    split at hdone
    · obtain ⟨rfl, rfl⟩ := hdone
      exact ⟨rfl, hlow⟩
    · obtain ⟨-, rfl, rfl⟩ := csrEntry_csrWrite_ok hdone
      rw [himm, Int.toNat_natCast, csrEntry_mideleg]
      exact ⟨rfl, hlow⟩
  have hmain : (({ point := .ending e, hart := s', controller := c } : Machine).step cfg).point =
      .main := by
    simp only [Machine.step, stepPoint]
    rw [finish_eq cfg _ hend.1, endInstructionTrap_fst, retiredHart_csrMip, if_pos (by omega)]
  intro h
  cases h with
  | fire hfire => cases hfire
  | step _ hnext =>
      cases hnext [] (fun _ h => absurd h List.not_mem_nil) with
      | fire hfire => exact absurd (hmain.symm.trans hfire) nofun
      | step hne _ => exact hne hmain

/-- After a write of a CSR that the interrupt conditions depend on, and after SRET and MRET, the
hart looks for interrupts before it fetches again, if and only if the CSR is not mideleg or a flag
is raised. -/
theorem firesBeforeFetch_iff {cfg : Config} {d : Fetched} {rs1 rs2 : Int} {s s' : Hart}
    {label : Label} {e : End} (c : Controller) (hlabel : labels (d.opId + 192) = some label)
    (hchanges : ChangesInterrupts d rs1 s label) (htable : CsrLabelsOk cfg s)
    (hmip : IsWord s.csrMip) (hx : execute cfg d rs1 rs2 s = .ok e s') :
    FiresBeforeFetch cfg { point := .ending e, hart := s', controller := c } ↔
      ¬WritesMidelegQuietly d rs1 s label := by
  constructor
  · rintro h ⟨⟨op, x, hop⟩, himm, hlow⟩
    exact not_firesBeforeFetch_of_mideleg c hlabel hop himm hlow htable hx h
  · intro hquiet
    obtain ⟨hretires, hflagged⟩ := flagged_of_changes hlabel hchanges htable hmip hx hquiet
    exact firesBeforeFetch_of_flagged cfg rfl hretires hflagged

/-! ## mideleg -/

/-- The fetched instruction `csrw mideleg, x0`. -/
def csrwMideleg : Fetched :=
  { opId := -11, imm := 0x303, result := 0, rdId := 0, rs1Id := 0, rs2Id := 0 }

/-- The hart after the first reset runs `csrw mideleg, x0`. -/
theorem bareHart_csrwMideleg :
    ∃ e s', execute (smallBuild fun _ _ => none) csrwMideleg 0 0 bareHart = .ok e s' := by
  have hlabel : labels (csrwMideleg.opId + 192) = some .CSRRW := by decide +kernel
  have hwrites : ¬ModifyCsrOp.rw.readsOnly csrwMideleg := by decide
  have hentry : csrEntry csrwMideleg.imm.toNat =
      { number := 0x303, read := .csrs, write := .csrs,
        mask := 0b00000000000000000000101010100010 } := by
    decide
  have hread : csrRead (smallBuild fun _ _ => none) csrwMideleg.imm (.var csrwMideleg.imm.toNat)
      (csrEntry csrwMideleg.imm.toNat).read bareHart =
        .ok (bareHart.csr (smallBuild fun _ _ => none) midelegCsr)
        bareHart := by
    rw [hentry]
    rfl
  have hx := modifyCsr_write (x := 0) (by decide) (start_csrLabels _ _) (by decide) hread hwrites
    (by rw [hentry]; exact nofun)
  rw [← execute_csr hlabel rfl 0] at hx
  exact ⟨_, _, hx⟩

theorem firesBeforeFetch_iff_csrwMideleg : ∃ e s',
    execute (smallBuild fun _ _ => none) csrwMideleg 0 0 bareHart = .ok e s' ∧
    (FiresBeforeFetch (smallBuild fun _ _ => none)
      { point := .ending e, hart := s',
        controller := { uartRxInterruptPtrs := 0, uartTxInterruptPtrs := 0 } } ↔
      ¬WritesMidelegQuietly csrwMideleg 0 bareHart .CSRRW) := by
  have hlabel : labels (csrwMideleg.opId + 192) = some .CSRRW := by decide +kernel
  obtain ⟨e, s', hx⟩ := bareHart_csrwMideleg
  have hchanges : ChangesInterrupts csrwMideleg 0 bareHart .CSRRW :=
    Or.inl ⟨.rw, 0, rfl, by decide, by decide⟩
  exact ⟨e, s', hx, firesBeforeFetch_iff _ hlabel hchanges (start_csrLabels _ _) (by decide) hx⟩

/-- The hart fetches the next instruction without a look at the interrupts. -/
theorem csrwMideleg_fetches : ∃ e s',
    execute (smallBuild fun _ _ => none) csrwMideleg 0 0 bareHart = .ok e s' ∧
    ChangesInterrupts csrwMideleg 0 bareHart .CSRRW ∧
    ¬FiresBeforeFetch (smallBuild fun _ _ => none)
      { point := .ending e, hart := s',
        controller := { uartRxInterruptPtrs := 0, uartTxInterruptPtrs := 0 } } := by
  have hlabel : labels (csrwMideleg.opId + 192) = some .CSRRW := by decide +kernel
  obtain ⟨e, s', hx⟩ := bareHart_csrwMideleg
  have hop : csrOperand csrwMideleg 0 .CSRRW = some (.rw, 0) := rfl
  exact ⟨e, s', hx, Or.inl ⟨.rw, 0, rfl, by decide, by decide⟩,
    not_firesBeforeFetch_of_mideleg _ hlabel hop rfl (by decide) (start_csrLabels _ _) hx⟩

end Mlogv32.Cpu
