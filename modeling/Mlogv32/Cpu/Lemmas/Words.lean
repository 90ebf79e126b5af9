import Mlogv32.Cpu.Lemmas.Mode
import Mlogv32.Cpu.Lemmas.System

/-!
# Words

The variables of the worker have no width, so each handler truncates its own result. `Words` is what
the hart holds in words at any point, and an instruction or a trap keeps it.
-/

namespace Mlogv32.Cpu
open Mlog Logic Isa

variable {cfg : PageConfig} {s s' : Hart}

/-! ## Words -/

/-- What the hart holds in words at any point. -/
structure Words (cfg : PageConfig) (s : Hart) : Prop where
  registers : ∀ i, 0 ≤ i → i < 32 → IsWord (s.registers i)
  x0 : s.registers 0 = 0
  csrs : ∀ n, IsWord (s.csr cfg n)
  pc : IsWord s.pc
  mie : IsWord s.csrMie
  mcycle : IsWord s.csrMcycle
  stimecmp : IsWord s.csrStimecmp ∧ IsWord s.csrStimecmph
  timers : TimersOk s

/-- What `Words` reads of a hart. -/
def wordsOf (cfg : PageConfig) (s : Hart) :
    ((Int → Int) × (Nat → Value) × Int) × (Int × Int) × (Int × Int) × Int × Int × Int × Int :=
  ((s.registers, s.procs cfg.csrs, s.pc), (s.csrMie, s.csrMcycle), (s.csrStimecmp, s.csrStimecmph),
    s.csrMtime, s.csrMtimeh, s.csrMtimecmp, s.csrMtimecmph)

theorem Words.frame (h : Words cfg s) (heq : wordsOf cfg s' = wordsOf cfg s) : Words cfg s' := by
  simp only [wordsOf, Prod.mk.injEq] at heq
  obtain ⟨⟨hregisters, hcsrs, hpc⟩, ⟨hmie, hmcycle⟩, ⟨hlow, hhigh⟩, h1, h2, h3, h4⟩ := heq
  refine ⟨fun i => ?_, ?_, fun n => ?_, ?_, ?_, ?_, ?_, ?_⟩
  · rw [hregisters]
    exact h.registers i
  · rw [hregisters]
    exact h.x0
  · rw [Hart.csr, hcsrs]
    exact h.csrs n
  · rw [hpc]
    exact h.pc
  · rw [hmie]
    exact h.mie
  · rw [hmcycle]
    exact h.mcycle
  · rw [hlow, hhigh]
    exact h.stimecmp
  · rw [TimersOk, h1, h2, h3, h4]
    exact h.timers

theorem Words.writeCsr (h : Words cfg s) (n : Nat) {x : Int} (hx : IsWord x) :
    Words cfg (s.writeCsr cfg (.var n) x) := by
  refine ⟨h.registers, h.x0, fun m => ?_, h.pc, h.mie, h.mcycle, h.stimecmp, h.timers⟩
  by_cases hm : m = n
  · subst hm
    rwa [writeCsr_csr_self]
  · rw [writeCsr_csr s hm]
    exact h.csrs m

theorem Words.load (h : Words cfg s) (hs : LoadFrame s s') : Words cfg s' := by
  obtain ⟨_, _, _, rfl, _⟩ := hs
  exact h.frame rfl

theorem Words.writeRd (h : Words cfg s) {rdId rd : Int} (hrd : rdId ≠ 0 → IsWord rd) :
    Words cfg (writeRd s rdId rd) := by
  unfold Cpu.writeRd
  split
  · exact h
  · rename_i hne
    refine ⟨fun i h0 hlt => ?_, (if_neg (Ne.symm hne)).trans h.x0, h.csrs, h.pc, h.mie, h.mcycle,
      h.stimecmp, h.timers⟩
    dsimp only
    split
    · exact hrd hne
    · exact h.registers i h0 hlt

/-! ## CSR instructions -/

theorem csrRead_word (h : Words cfg s) (hminstret : IsWord s.csrMinstret) (imm : Int) (n : Nat)
    (r : CsrRead) :
    wp (csrRead cfg imm (.var n) r) (fun rd _ => IsWord rd) (fun _ _ => True) s := by
  have hzero : IsWord 0 := by decide
  cases r <;>
    simp only [csrRead, readCounter, wp_bind, wp_get, wp_ite, wp_throw, wp_pure, implies_true,
      and_true]
  case csrs => exact h.csrs n
  case zero => exact hzero
  case mstatus => exact isWord_opAnd _ (by split <;> decide)
  case sip => exact isWord_opAnd _ (h.csrs midelegCsr)
  case mip => exact isWord_opAnd _ (by decide)
  case sie => exact isWord_opAnd _ (h.csrs midelegCsr)
  case mie => exact h.mie
  case satp => exact ⟨trivial, fun _ => h.csrs n⟩
  case stimecmp =>
    intro _
    split
    · exact h.stimecmp.1
    · exact h.stimecmp.2
  case mcycle => exact fun _ => h.mcycle
  case cycleh => exact fun _ => h.csrs mcyclehCsr
  case minstret => exact fun _ => hminstret
  case minstreth => exact fun _ => h.csrs minstrethCsr
  case time =>
    intro _
    split
    · exact h.timers.1
    · exact h.timers.2.1
  case hpmcounter => exact fun _ => hzero

theorem Words.csrWrite (h : Words cfg s) (n : Nat) {result : Int} (hresult : IsWord result)
    (w : CsrWrite) : Words cfg (csrWriteHart cfg (.var n) result s w) := by
  cases w with
  | csrs => exact h.writeCsr n hresult
  | satp =>
      have hnull : Words cfg { s with icacheVar := .null } := h.frame rfl
      exact hnull.writeCsr n hresult
  | minstreth =>
      have hlow : Words cfg { s with csrMinstret := s.csrMinstret - 1 } := h.frame rfl
      exact hlow.writeCsr n hresult
  | sie =>
      have hmie : IsWord (opOr (opAnd s.csrMie (opNot (s.csr cfg midelegCsr)))
        (opAnd result (s.csr cfg midelegCsr))) := (h.mie.opAnd _).opOr (hresult.opAnd _)
      exact ⟨h.registers, h.x0, h.csrs, h.pc, hmie, h.mcycle, h.stimecmp, h.timers⟩
  | mie =>
      exact ⟨h.registers, h.x0, h.csrs, h.pc, hresult.opAnd _, h.mcycle, h.stimecmp, h.timers⟩
  | mcycle => exact ⟨h.registers, h.x0, h.csrs, h.pc, h.mie, hresult, h.stimecmp, h.timers⟩
  | stimecmp =>
      exact ⟨h.registers, h.x0, h.csrs, h.pc, h.mie, h.mcycle, ⟨hresult, h.stimecmp.2⟩, h.timers⟩
  | stimecmph =>
      exact ⟨h.registers, h.x0, h.csrs, h.pc, h.mie, h.mcycle, ⟨h.stimecmp.1, hresult⟩, h.timers⟩
  | _ => exact h.frame rfl

/-- A write of minstret, which is one too low, or of another CSR. -/
theorem csrWriteHart_minstret (csrVar : Value) {result : Int} (hresult : IsWord result)
    (h : IsWord s.csrMinstret) (w : CsrWrite) :
    -1 ≤ (csrWriteHart cfg csrVar result s w).csrMinstret ∧
      (csrWriteHart cfg csrVar result s w).csrMinstret < 2 ^ 32 := by
  obtain ⟨h0, hlt⟩ := h
  obtain ⟨hresult0, hresult⟩ := hresult
  cases w with
  | minstret =>
      change -1 ≤ result - 1 ∧ result - 1 < 2 ^ 32
      omega
  | minstreth =>
      change -1 ≤ s.csrMinstret - 1 ∧ s.csrMinstret - 1 < 2 ^ 32
      omega
  | _ =>
      change -1 ≤ s.csrMinstret ∧ s.csrMinstret < 2 ^ 32
      omega

/-! ## Instructions -/

/-- An instruction keeps the words of the hart. minstret is one too low until the instruction ends.
-/
theorem Effect.words {label : Label} {d : Fetched} {rs1 rs2 : Int} {e : End}
    (h : Effect cfg label d rs1 rs2 s e s') (hw : Words cfg s) (hs : Sound cfg s)
    (hminstret : IsWord s.csrMinstret) :
    Words cfg s' ∧ (-1 ≤ s'.csrMinstret ∧ s'.csrMinstret < 2 ^ 32) ∧
      (e.retires = false → IsWord s'.csrMinstret) := by
  have hsame {s'' : Hart} (h : Words cfg s'') (heq : s''.csrMinstret = s.csrMinstret) :
      Words cfg s'' ∧ (-1 ≤ s''.csrMinstret ∧ s''.csrMinstret < 2 ^ 32) ∧
        (e.retires = false → IsWord s''.csrMinstret) := by
    rw [heq]
    have h0 := hminstret.1
    exact ⟨h, ⟨by omega, hminstret.2⟩, fun _ => hminstret⟩
  have hload {s₁ : Hart} (h : LoadFrame s s₁) : s₁.csrMinstret = s.csrMinstret := by
    obtain ⟨_, _, _, rfl, _⟩ := h
    rfl
  cases h with
  | compute => exact hsame hw rfl
  | pass => exact hsame hw rfl
  | jump => exact hsame (hw.frame rfl) rfl
  | load h => exact hsame (hw.load h) (hload h)
  | reserve h => exact hsame ((hw.load h).frame rfl) (hload h :)
  | @storeRam s₁ r address value _ _ h ha =>
      have hcsrs := storedRam_csrs { s₁ with reservationSet := r } ha.1 value
      have hframe : wordsOf cfg (storedRam cfg { s₁ with reservationSet := r } address value) =
          wordsOf cfg s₁ ∧
          (storedRam cfg { s₁ with reservationSet := r } address value).csrMinstret =
            s₁.csrMinstret := by
        unfold wordsOf
        rw [hcsrs]
        unfold storedRam
        split
        · exact ⟨rfl, rfl⟩
        · exact ⟨rfl, rfl⟩
      exact hsame ((hw.load h).frame hframe.1) (hframe.2.trans (hload h))
  | storeSyscon h => exact hsame (hw.load h) (hload h)
  | storeMmio _ _ h _ hvalue hx =>
      have h₂ := h.1.trans h.2
      have hw₂ := hw.load h₂
      rcases storeMmio_frame hx with ⟨-, _, _, rfl⟩ | ⟨-, _, _, _, _, rfl, htimers⟩
      · exact hsame (hw₂.frame rfl) (hload h₂ :)
      · exact hsame ⟨hw₂.registers, hw₂.x0, hw₂.csrs, hw₂.pc, hw₂.mie, hw₂.mcycle, hw₂.stimecmp,
          htimers hvalue hw₂.timers⟩ (hload h₂ :)
  | sret => exact hsame (hw.frame rfl) rfl
  | mret => exact hsame (hw.frame rfl) rfl
  | sfence => exact hsame (hw.frame rfl) rfl
  | csrRead => exact hsame hw rfl
  | @csrWrite op x rd =>
      have hword := masked_word op d.imm.toNat x rd
      refine ⟨hw.csrWrite _ hword _, csrWriteHart_minstret _ hword hminstret _, fun hretires => ?_⟩
      cases hwrite : (csrEntry d.imm.toNat).write <;> rw [hwrite] at hretires <;> cases hretires
  | mlogsys =>
      obtain ⟨imm, procs, heq, hprocs⟩ := mlogsysHart_frame hs.incr rs1
      rw [heq]
      exact hsame (hw.frame (by simp only [wordsOf, hprocs])) rfl

/-- The immediate of SLLI is a shift amount. -/
theorem slli_immLimit {d : Fetched} (hlabel : labels (d.opId + 192) = some .SLLI) :
    immLimit d.opId = 32 := by
  obtain ⟨h0, h1⟩ := labels_range hlabel
  have htable : ∀ i : Fin 256, labels (i : Nat) = some .SLLI → immLimit ((i : Nat) - 192) = 32 := by
    decide +kernel
  have hi := htable ⟨(d.opId + 192).toNat, by omega⟩
  dsimp only at hi
  rw [Int.toNat_of_nonneg h0, add_sub_cancel_right] at hi
  exact hi hlabel

/-- Below the top of the address space, an instruction writes a word to `rd` and goes on at a word.
-/
theorem Effect.result_word {label : Label} {d : Fetched} {rs1 rs2 : Int} {e : End}
    (h : Effect cfg label d rs1 rs2 s e s') (hlabel : labels (d.opId + 192) = some label)
    (hd : d.Valid) (hw : Words cfg s) (hs : Sound cfg s) (hminstret : IsWord s.csrMinstret)
    (h1 : IsWord rs1) (h2 : IsWord rs2) (hnext : s.nextPc = s.pc + 4) (hpc : IsWord (s.pc + 4)) :
    (e.rdId ≠ 0 → IsWord e.rd) ∧ IsWord s'.nextPc := by
  have hnext' : IsWord s.nextPc := hnext ▸ hpc
  have hload {s₁ : Hart} (h : LoadFrame s s₁) : IsWord s₁.nextPc := by
    obtain ⟨_, _, _, rfl, _⟩ := h
    exact hnext'
  have hzero {p : Prop} (h : (0 : Int) ≠ 0) : p := absurd rfl h
  cases h with
  | compute h =>
      refine ⟨fun _ => aluRd_word h1 h2 hd.imm (fun hshift => ?_) h, hnext'⟩
      exact slli_immLimit (hshift ▸ hlabel) ▸ hd.immLimit
  | pass h => exact ⟨by rcases h with rfl | rfl <;> exact hzero, hnext'⟩
  | jump _ hword => exact ⟨fun _ => hpc, hword.1⟩
  | load h hrd => exact ⟨fun _ => hrd hw.timers, hload h⟩
  | reserve h hrd => exact ⟨fun _ => hrd, (hload h :)⟩
  | @storeRam s₁ r address value _ _ h ha _ hrd =>
      refine ⟨fun hne => (hrd.resolve_left hne).2, ?_⟩
      have hframe : (storedRam cfg { s₁ with reservationSet := r } address value).nextPc =
          s₁.nextPc := by
        unfold storedRam
        split
        · rfl
        · rfl
      rw [hframe]
      exact hload h
  | storeSyscon h he => exact ⟨by rcases he with rfl | rfl <;> exact hzero, hload h⟩
  | storeMmio _ _ h _ _ hx =>
      have h₂ := hload (h.1.trans h.2)
      rcases storeMmio_frame hx with ⟨rfl, _, _, rfl⟩ | ⟨rfl, _, _, _, _, rfl, -⟩
      · exact ⟨hzero, h₂⟩
      · exact ⟨hzero, h₂⟩
  | sret => exact ⟨hzero, hw.csrs sepcCsr⟩
  | mret => exact ⟨hzero, hw.csrs mepcCsr⟩
  | sfence => exact ⟨hzero, hnext'⟩
  | csrRead _ _ _ hread =>
      exact ⟨fun _ => (wp_ok (csrRead_word hw hminstret _ _ _) hread :), hnext'⟩
  | @csrWrite op x rd _ _ _ hread =>
      have hrd := wp_ok (csrRead_word hw hminstret _ _ _) hread
      cases (csrEntry d.imm.toNat).write <;> exact ⟨fun _ => hrd, hnext'⟩
  | mlogsys =>
      obtain ⟨imm, procs, heq, -⟩ := mlogsysHart_frame hs.incr rs1
      rw [heq]
      exact ⟨hzero, hnext'⟩

/-! ## The top of the address space -/

/-- The last address of an instruction. Its successor is not a word. -/
def topPc : Int := 0xfffffffc

/-- The instruction goes on elsewhere and writes no return address: a jump with x0 as `rd`, a branch
that is taken, SRET or MRET. -/
def Leaves (label : Label) (d : Fetched) (rs1 rs2 : Int) : Prop :=
  (label ∈ [.JAL, .JALR] ∧ d.rdId = 0) ∨ branchTaken label rs1 rs2 = some true ∨
    (label = .PRIV ∧ (d.imm = 0x102 ∨ d.imm = 0x302))

theorem unconditionalJump_word (rdId target : Int) (s : Hart) :
    wp (unconditionalJump rdId target)
      (fun e s' => e.retires = true → e.rdId = rdId ∧ IsWord s'.nextPc) (fun _ _ => True) s := by
  have hword : IsWord (opAnd target 0xffffffff) := isWord_opAnd _ (by decide)
  simp only [unconditionalJump, wp_bind, wp_get, wp_ite, wp_throw, wp_set, wp_pure]
  refine ⟨fun _ => trivial, fun _ => ⟨fun _ _ => ⟨rfl, hword⟩, fun _ => ⟨fun _ _ => ⟨rfl, hword⟩,
    fun _ => ?_⟩⟩⟩
  cases s.icacheVar with
  | var i => exact fun _ => ⟨rfl, hword⟩
  | _ => exact fun hretires => absurd hretires (by decide)

theorem priv_returns (mode : Int) :
    (priv 0x102 mode = .ILLEGAL_OP ∨ priv 0x102 mode = .SRET) ∧
      (priv 0x302 mode = .ILLEGAL_OP ∨ priv 0x302 mode = .MRET) := by
  constructor
  · rw [priv, if_neg (by decide), if_neg (by decide), if_neg (by decide)]
    split
    · exact Or.inl rfl
    · exact Or.inr rfl
  · rw [priv, if_neg (by decide), if_neg (by decide), if_neg (by decide)]
    split
    · exact Or.inl rfl
    · rw [if_neg (by decide), if_neg (by decide)]
      split
      · exact Or.inl rfl
      · exact Or.inr rfl

/-- An instruction that leaves the top of the address space goes on at a word. -/
theorem Leaves.word {label : Label} {d : Fetched} {rs1 rs2 : Int} (h : Leaves label d rs1 rs2)
    (hlabel : labels (d.opId + 192) = some label) (hw : Words cfg s) :
    wp (execute cfg d rs1 rs2) (fun e s' => e.retires = true → e.rdId = 0 ∧ IsWord s'.nextPc)
      (fun _ _ => True) s := by
  rw [execute_eq cfg rs1 rs2 hlabel]
  rcases h with ⟨hjump, hrd⟩ | htaken | ⟨rfl, himm⟩
  · have hunconditional (target : Int) := unconditionalJump_word d.rdId target s
    rw [hrd] at hunconditional
    rcases List.mem_pair.mp hjump with rfl | rfl
    · change wp (jal d.rdId d.imm) _ _ s
      rw [hrd]
      exact wp_bind.mpr (hunconditional _)
    · change wp (jalr d.rdId rs1 d.imm) _ _ s
      rw [hrd]
      exact hunconditional _
  · rw [handler_branch htaken]
    exact wp_bind.mpr (unconditionalJump_word 0 _ s)
  · change wp (privHandler cfg d.imm) _ _ s
    simp only [privHandler, wp_bind, wp_get]
    obtain ⟨hsret, hmret⟩ := priv_returns s.privilegeMode
    rcases himm with himm | himm
    · rw [himm]
      rcases hsret with hp | hp
      · rw [hp]
        trivial
      · rw [hp]
        simp only [sret, wp_bind, wp_get, wp_ite, wp_throw, wp_set, wp_pure]
        exact ⟨fun _ => trivial, fun _ _ => ⟨rfl, hw.csrs sepcCsr⟩⟩
    · rw [himm]
      rcases hmret with hp | hp
      · rw [hp]
        trivial
      · rw [hp]
        exact fun _ => ⟨rfl, hw.csrs mepcCsr⟩

/-! ## Points -/

/-- The cause and the value of an exception are words. -/
def Trap.IsWord (t : Trap) : Prop := Cpu.IsWord t.mcause ∧ Cpu.IsWord t.mtval

/-- What holds at a point. -/
def PointWords : Point → Hart → Prop
  | .execute _ rs1 rs2, s => IsWord rs1 ∧ IsWord rs2 ∧ s.nextPc = s.pc + 4 ∧ IsWord s.csrMinstret
  | .ending e, s =>
      (e.retires = true → (e.rdId ≠ 0 → IsWord e.rd) ∧ IsWord s.nextPc ∧
        -1 ≤ s.csrMinstret ∧ s.csrMinstret < 2 ^ 32) ∧
      (e.retires = false → IsWord s.csrMinstret)
  | .trap t, s => t.IsWord ∧ IsWord s.csrMinstret
  | _, s => IsWord s.csrMinstret

/-! ## Traps -/

theorem Trap.IsWord.pageFault {t : Trap} (h : t.IsWord) (hcause : t.mcause ≤ 7) :
    (Cpu.pageFault t).IsWord := by
  obtain ⟨⟨h0, -⟩, hval⟩ := h
  refine ⟨⟨?_, ?_⟩, hval⟩
  · exact le_max_of_le_right (by decide)
  · exact max_lt (by omega) (by decide)

theorem translated_error (cfg : PageConfig) {trap : Trap} (h : trap.IsWord)
    (hcause : trap.mcause ≤ 7) (s : Hart) :
    wp (translated cfg trap) (fun _ _ => True) (fun t _ => t.IsWord) s := by
  simp only [translated, wp_bind, wp_get, wp_ite, wp_pure, implies_true, and_true]
  refine fun _ => wp_mono (translateVirtualAddress_frame cfg trap s) (fun _ _ _ => trivial)
    fun t _ ht => ?_
  rcases ht.1 with rfl | rfl
  · exact h
  · exact h.pageFault hcause

theorem Raises.word {label : Label} {d : Fetched} {rs1 rs2 : Int} {t : Trap}
    (h : Raises cfg label d rs1 rs2 s t) (hd : d.Valid) (hw : Words cfg s) (hmode : ModeOk s)
    (h1 : IsWord rs1) : t.IsWord := by
  have hzero : IsWord 0 := by decide
  have hvirtual (op : MemOp) : IsWord (virtualAddress op d.imm rs1) := by
    have himm := hd.imm
    cases op with
    | load => exact opMod_range (b := 0x100000000) (add_nonneg h1.1 himm.1) (by decide)
    | store => exact opMod_range (b := 0x100000000) (add_nonneg h1.1 himm.1) (by decide)
    | _ => exact h1
  have hcause (op : MemOp) : 0 ≤ misalignedCause op ∧ misalignedCause op ≤ 6 := by
    unfold misalignedCause
    split <;> decide
  have hfault (op : MemOp) : (accessFault op (virtualAddress op d.imm rs1)).IsWord ∧
      (accessFault op (virtualAddress op d.imm rs1)).mcause ≤ 7 := by
    obtain ⟨h0, h6⟩ := hcause op
    unfold accessFault
    exact ⟨⟨⟨by dsimp only; omega, by dsimp only; omega⟩, hvirtual op⟩, by dsimp only; omega⟩
  cases h with
  | illegal => exact ⟨by decide, hzero⟩
  | ecall =>
      obtain ⟨h0, h3⟩ := hmode
      have hword : IsWord s.privilegeMode := ⟨h0, by omega⟩
      exact ⟨IsWord.opOr (by decide) hword, hzero⟩
  | ebreak => exact ⟨(by decide : IsWord 3), hw.pc⟩
  | jump =>
      refine ⟨hzero, ?_⟩
      unfold jumpTarget
      split
      · exact isWord_opAnd _ (by decide)
      · exact isWord_opAnd _ (by decide)
  | @misaligned op =>
      obtain ⟨h0, h6⟩ := hcause op
      exact ⟨⟨h0, by dsimp only; omega⟩, hvirtual op⟩
  | @walk op _ _ _ _ hwalk =>
      exact (wp_error (translated_error cfg (hfault op).1 (hfault op).2 s) hwalk :)
  | @denied op => exact (hfault op).1

theorem FetchRaises.word {t : Trap} (h : FetchRaises cfg s t) (hw : Words cfg s) : t.IsWord := by
  cases h with
  | walk h =>
      rcases (wp_error (fetchAddress_frame cfg (fetchHart s)) h).1 with rfl | rfl
      · exact ⟨(by decide : IsWord 1), hw.pc⟩
      · exact ⟨(by decide : IsWord 12), hw.pc⟩
  | denied => exact ⟨(by decide : IsWord 1), hw.pc⟩

theorem Words.trap (h : Words cfg s) (hminstret : IsWord s.csrMinstret) {t : Trap} (ht : t.IsWord)
    (mxdeleg : Int) : Words cfg (trapCheckMxdeleg cfg mxdeleg t s).2 ∧
      PointWords (trapCheckMxdeleg cfg mxdeleg t s).1 (trapCheckMxdeleg cfg mxdeleg t s).2 := by
  obtain ⟨c, mode, mstatus, e, -, heq⟩ := trapCheckMxdeleg_eq cfg mxdeleg t s
  have hprocs : Words cfg { s with procs := trapProcs cfg c t s } :=
    ((h.writeCsr c.cause ht.1).writeCsr c.tval ht.2).writeCsr c.epc h.pc
  rw [heq]
  refine ⟨⟨h.registers, h.x0, hprocs.csrs, ?_, h.mie, h.mcycle, h.stimecmp, h.timers⟩, ?_⟩
  · dsimp only [trapHart]
    split
    · exact h.pc
    · exact hprocs.csrs c.tvec
  · dsimp only [trapPoint]
    split_ifs <;> exact hminstret

end Mlogv32.Cpu
