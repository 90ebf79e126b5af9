import Mlogv32.Cpu.Lemmas.Execute
import Mlogv32.Cpu.Lemmas.Fetch
import Mlogv32.Cpu.Lemmas.Interrupt
import Mlogv32.Cpu.Lemmas.Mlogsys
import Mlogv32.Logic.Reachable

/-!
# Runs of a sound hart

If every store meets `StoreOk` when it executes, the hart is sound in every state that it reaches.
-/

namespace Mlogv32.Cpu
open Mlog Logic Isa

variable {cfg : PageConfig} {s : Hart}

/-! ## Instructions -/

/-- A store to MMIO changes the state of the UARTs, or the machine timers. -/
theorem storeMmio_frame {address value : Int} {e : End} {s' : Hart}
    (hx : storeMmioWordUnchecked cfg address value s = .ok e s') :
    (e = .endInstruction ∧ ∃ uartFlags uarts, s' = { s with uartFlags := uartFlags, uarts := uarts }) ∨
      (e = .endInstructionWithRdAndPollInterrupts 0 0 ∧ ∃ a b c d,
        s' = { s with csrMtime := a, csrMtimeh := b, csrMtimecmp := c, csrMtimecmph := d } ∧
        (IsWord value → TimersOk s → TimersOk s')) := by
  have h : wp (storeMmioWordUnchecked cfg address value) (fun e s' =>
      (e = .endInstruction ∧ ∃ uartFlags uarts, s' = { s with uartFlags := uartFlags, uarts := uarts }) ∨
      (e = .endInstructionWithRdAndPollInterrupts 0 0 ∧ ∃ a b c d,
        s' = { s with csrMtime := a, csrMtimeh := b, csrMtimecmp := c, csrMtimecmph := d } ∧
        (IsWord value → TimersOk s → TimersOk s'))) (fun _ _ => True) s := by
    simp only [storeMmioWordUnchecked, wp_bind, wp_get, wp_ite, wp_set, wp_pure]
    refine ⟨fun _ => ⟨fun _ => Or.inl ⟨trivial, _, _, rfl⟩, fun _ =>
      ⟨fun _ => Or.inl ⟨trivial, _, _, rfl⟩,
      fun _ => Or.inl ⟨trivial, s.uartFlags, s.uarts, rfl⟩⟩⟩, fun _ => Or.inr ⟨trivial, ?_⟩⟩
    split_ifs
    · exact ⟨_, _, _, _, rfl, fun hv ht => ⟨hv, ht.2⟩⟩
    · exact ⟨_, _, _, _, rfl, fun hv ht => ⟨ht.1, hv, ht.2.2⟩⟩
    · exact ⟨_, _, _, _, rfl, fun hv ht => ⟨ht.1, ht.2.1, hv, ht.2.2.2⟩⟩
    · exact ⟨_, _, _, _, rfl, fun hv ht => ⟨ht.1, ht.2.1, ht.2.2.1, hv⟩⟩
  have h := wp_ok h hx
  exact h

theorem jumpCursor_ok {v : Value} {nextPc : Int} (h : CursorOk cfg s.icacheRam s.icacheVar)
    (hnext : CodeAddress nextPc) (hv : JumpCursor s nextPc v) : CursorOk cfg s.icacheRam v := by
  rcases hv with rfl | ⟨i, hi, -, rfl⟩
  · exact Or.inl rfl
  · rcases h with h | ⟨a, ha, -, heq⟩
    · rw [hi] at h
      cases h
    · rw [hi] at heq
      obtain ⟨hcell, hslot⟩ := @jumpCursor_slot _ _ nextPc _ _ ha heq
      have := hnext.2
      exact Or.inr ⟨_, hcell, by omega, hslot⟩

/-- The CSRs that hold addresses are written with addresses. -/
theorem masked_vector (op : ModifyCsrOp) {n : Nat} (hn : n ∈ [mtvecCsr, stvecCsr, mepcCsr, sepcCsr])
    (x rd : Int) :
    CodeAddress (op.masked (csrEntry n) x rd) := by
  have hmask : (csrEntry n).mask = 0xfffffffc :=
    (show ∀ n ∈ [mtvecCsr, stvecCsr, mepcCsr, sepcCsr], (csrEntry n).mask = 0xfffffffc by decide) n hn
  have h := opAnd_mask (b := 0xfffffffc) (op.result x rd) 2 30 (by decide) (by decide)
  rw [ModifyCsrOp.masked, hmask]
  push_cast
  rw [h]
  unfold CodeAddress
  omega

theorem csrWriteHart_sound (hs : Sound cfg s) {n : Nat} {result : Int}
    (hresult : n ∈ [mtvecCsr, stvecCsr, mepcCsr, sepcCsr] → CodeAddress result) (w : CsrWrite) :
    Sound cfg (csrWriteHart cfg (.var n) result s w) := by
  have hsame {s' : Hart} (hprocs : s'.procs = s.procs) (hram : s'.icacheRam = s.icacheRam)
      (hvar : s'.icacheVar = s.icacheVar) (hetext : s'.etext = s.etext)
      (hpc : s'.pc = s.pc) : Sound cfg s' :=
    hs.of_procs hprocs (by rw [hram, hvar]; exact hs.cursor) hetext (by rw [hpc]; exact hs.pc)
  have hnull : Sound cfg { s with icacheVar := .null } := hs.of_procs rfl (Or.inl rfl) rfl hs.pc
  have hminstret : Sound cfg { s with csrMinstret := s.csrMinstret - 1 } := hsame rfl rfl rfl rfl rfl
  cases w with
  | csrs => exact hs.writeCsr hresult
  | satp => exact hnull.writeCsr hresult
  | minstreth => exact hminstret.writeCsr hresult
  | _ => exact hsame rfl rfl rfl rfl rfl

/-- An instruction that does not trap keeps the hart sound, and goes on to an address. -/
theorem Effect.sound {label : Label} {d : Fetched} {rs1 rs2 : Int} {e : End} {s' : Hart}
    (h : Effect cfg label d rs1 rs2 s e s') (hs : Sound cfg s) (hnext : CodeAddress s.nextPc) :
    Sound cfg s' ∧ CodeAddress s'.nextPc ∧ e ≠ .lost := by
  have hload {s' : Hart} (h : LoadFrame s s') : Sound cfg s' ∧ CodeAddress s'.nextPc := by
    refine ⟨h.sound hs, ?_⟩
    obtain ⟨_, _, _, rfl, _⟩ := h
    exact hnext
  have hret (xpieMask : Int) {s₁ : Hart} (h : Sound cfg s₁) : Sound cfg (xRet xpieMask s₁) :=
    h.of_procs rfl (Or.inl rfl) rfl h.pc
  cases h with
  | compute => exact ⟨hs, hnext, nofun⟩
  | pass h => exact ⟨hs, hnext, by rcases h with rfl | rfl <;> exact nofun⟩
  | jump _ hword hv =>
      have hcode : CodeAddress _ := ⟨hword.1.1, hword.2⟩
      have hcursor := jumpCursor_ok hs.cursor hcode hv
      exact ⟨hs.of_procs rfl hcursor rfl hs.pc, hcode, nofun⟩
  | load h => exact ⟨(hload h).1, (hload h).2, nofun⟩
  | reserve h =>
      exact ⟨(hload h).1.of_procs rfl (hload h).1.cursor rfl (hload h).1.pc, (hload h).2, nofun⟩
  | @storeRam s₁ r _ _ _ _ h ha hvalue =>
      obtain ⟨h₁, h₂⟩ := hload h
      have h₃ : Sound cfg { s₁ with reservationSet := r } := h₁.of_procs rfl h₁.cursor rfl h₁.pc
      refine ⟨h₃.storedRam ha.1 hvalue, ?_, nofun⟩
      unfold storedRam
      split
      · exact h₂
      · exact h₂
  | storeSyscon h he => exact ⟨(hload h).1, (hload h).2, by rcases he with rfl | rfl <;> exact nofun⟩
  | storeMmio _ _ h _ _ hx =>
      obtain ⟨h₁, h₂⟩ := hload (h.1.trans h.2)
      rcases storeMmio_frame hx with ⟨rfl, _, _, rfl⟩ | ⟨rfl, _, _, _, _, rfl, -⟩
      · exact ⟨h₁.of_procs rfl h₁.cursor rfl h₁.pc, h₂, nofun⟩
      · exact ⟨h₁.of_procs rfl h₁.cursor rfl h₁.pc, h₂, nofun⟩
  | sret => exact ⟨hret _ (hs.of_procs rfl hs.cursor rfl hs.pc), hs.vectors sepcCsr (by decide), nofun⟩
  | mret => exact ⟨hret _ (hs.of_procs rfl hs.cursor rfl hs.pc), hs.vectors mepcCsr (by decide), nofun⟩
  | sfence => exact ⟨hs.of_procs rfl (Or.inl rfl) rfl hs.pc, hnext, nofun⟩
  | csrRead => exact ⟨hs, hnext, nofun⟩
  | csrWrite =>
      refine ⟨csrWriteHart_sound hs (fun hn => masked_vector _ hn _ _) _, ?_, ?_⟩
      · cases (csrEntry d.imm.toNat).write <;> exact hnext
      · cases (csrEntry d.imm.toNat).write <;> exact nofun
  | mlogsys =>
      obtain ⟨_, _, heq, -⟩ := mlogsysHart_frame hs.incr rs1
      refine ⟨mlogsysHart_sound hs rs1, ?_, nofun⟩
      rw [heq]
      exact hnext

/-! ## Steps -/

/-- What holds at a point of a sound hart. -/
def PointOk : Point → Hart → Prop
  | .execute d _ _, s => d.Valid ∧ CodeAddress s.nextPc
  | .ending e, s => e ≠ .lost ∧ CodeAddress s.nextPc
  | .lost, _ => False
  | _, _ => True

structure SoundMachine (cfg : PageConfig) (m : Machine) : Prop where
  hart : Sound cfg m.hart
  point : PointOk m.point m.hart

theorem SlotOk.ofCursor (hs : Sound cfg s) {i : Nat} (hv : s.icacheVar = .var i) :
    SlotOk (s.procs s.icacheRam i) := by
  rcases hs.cursor with h | ⟨a, ha, -, heq⟩
  · rw [hv] at h
    cases h
  · have hcell := hs.slots a ha
    rw [cell, heq, hv] at hcell
    exact hcell

theorem Cached.slot (hs : Sound cfg s) {a : Int} (h : Cached cfg s.etext a) :
    ∃ b, IcacheCell cfg b ∧ icacheSlot cfg a = accessRamRaw cfg b ∧
      b = (if a < ramStart then (cfg.ramSize : Int) else cfg.ramIcacheOffset) + a :=
  icacheSlot_cell cfg (h.imp_left fun h => ⟨h.1, lt_of_lt_of_le h.2 hs.etext⟩)

/-- A cached address and its slot have the same offset in the page. -/
theorem icacheOffset_emod (cfg : PageConfig) (a : Int) :
    ((if a < ramStart then (cfg.ramSize : Int) else cfg.ramIcacheOffset) + a) % 4096 = a % 4096 := by
  have hram := cfg.ramSize_aligned
  have hrom := cfg.programRomSize_aligned
  unfold PageConfig.ramIcacheOffset ramStart
  split <;> omega

theorem fetchAddress_aligned (hs : Sound cfg s) {a : Int} {s₁ : Hart}
    (ha : fetchAddress cfg (fetchHart s) = .ok a s₁) : LoadFrame (fetchHart s) s₁ ∧ a % 4 = 0 := by
  obtain ⟨hload, -, hpage⟩ := wp_ok (fetchAddress_frame cfg (fetchHart s)) ha
  have hpc : (fetchHart s).pc % 4 = 0 := hs.pc.2
  exact ⟨hload, by omega⟩

theorem successor_ok {b : Int} {ram : Tile} {i : Nat} (hb : IcacheCell cfg b) (halign : b % 4 = 0)
    (h : accessRamRaw cfg b = (ram, .var i)) : CursorOk cfg ram (successor i) := by
  rcases successor_slot hb halign h with ⟨hnull, -⟩ | ⟨-, hcell, hslot⟩
  · exact Or.inl hnull
  · exact Or.inr ⟨b + 4, hcell, by omega, hslot⟩

theorem Fetches.sound {d : Fetched} {s' : Hart} (h : Fetches cfg s d s') (hs : Sound cfg s) :
    Sound cfg s' ∧ d.Valid ∧ CodeAddress s'.nextPc := by
  have hnext : CodeAddress (s.pc + 4) := by
    obtain ⟨h0, h4⟩ := hs.pc
    exact ⟨by omega, by omega⟩
  have hfetch : Sound cfg (fetchHart s) := hs.of_procs rfl hs.cursor rfl hs.pc
  cases h with
  | @cursor i hv =>
      have hcursor : CursorOk cfg s.icacheRam (successor i) := by
        rcases hs.cursor with h | ⟨a, ha, halign, heq⟩
        · rw [hv] at h
          cases h
        · rw [hv] at heq
          exact successor_ok ha halign heq
      exact ⟨hs.of_procs rfl hcursor rfl hs.pc, readIcache_valid (SlotOk.ofCursor hs hv), hnext⟩
  | @icache a ram i s₁ hv ha hcached hslot =>
      obtain ⟨hload, halign⟩ := fetchAddress_aligned hs ha
      obtain ⟨b, hb, hslot', hoff⟩ := hcached.slot hs
      have hb4 : b % 4 = 0 := by
        have hpage := icacheOffset_emod cfg a
        rw [← hoff] at hpage
        omega
      have hraw := hslot'.symm.trans hslot
      have hcell := hs.slots b hb
      rw [cell, hraw] at hcell
      have hs₁ := hload.sound hfetch
      refine ⟨hs₁.of_procs rfl (successor_ok hb hb4 hraw) rfl hs₁.pc, readIcache_valid hcell, ?_⟩
      obtain ⟨_, _, _, rfl, _⟩ := hload
      exact hnext
  | slow hv ha hcached hw =>
      obtain ⟨hload, halign⟩ := fetchAddress_aligned hs ha
      have hs₁ := hload.sound hfetch
      obtain ⟨n, rfl⟩ := Int.eq_ofNat_of_zero_le hw.1.1
      have hlt := hw.1.2
      have hvalid := slowFetch_valid (BitVec.ofNat 32 n) s.imm
      rw [BitVec.toNat_ofNat, Nat.mod_eq_of_lt (by omega)] at hvalid
      refine ⟨hs₁.of_procs rfl hs₁.cursor rfl hs₁.pc, hvalid, ?_⟩
      obtain ⟨_, _, _, rfl, _⟩ := hload
      exact hnext

theorem trapCheckMxdeleg_sound (hs : Sound cfg s) (mxdeleg : Int) (t : Trap) :
    Sound cfg (trapCheckMxdeleg cfg mxdeleg t s).2 ∧
      PointOk (trapCheckMxdeleg cfg mxdeleg t s).1 (trapCheckMxdeleg cfg mxdeleg t s).2 := by
  obtain ⟨c, mode, mstatus, e, hc, heq⟩ := trapCheckMxdeleg_eq cfg mxdeleg t s
  have hcsr (n : Nat) (x : Int) (s' : Hart) : (s'.writeCsr cfg (.var n) x).csr cfg n = x :=
    congrArg Value.toNum (writeProc_var_self s'.procs cfg.csrs n (.num x))
  have hprocs : Sound cfg { s with procs := trapProcs cfg c t s } := by
    have hcause : c.cause ∉ [mtvecCsr, stvecCsr, mepcCsr, sepcCsr] ∧
        c.tval ∉ [mtvecCsr, stvecCsr, mepcCsr, sepcCsr] := by
      rcases hc with ⟨rfl, -⟩ | ⟨rfl, -⟩ <;> decide
    exact ((hs.writeCsr fun h => absurd h hcause.1).writeCsr (x := t.mtval) fun h =>
      absurd h hcause.2).writeCsr
      (x := s.pc) fun _ => hs.pc
  have htvec : CodeAddress (trapProcs cfg c t s cfg.csrs c.tvec).toNum :=
    hprocs.vectors c.tvec (by rcases hc with ⟨rfl, -⟩ | ⟨rfl, -⟩ <;> decide)
  rw [heq]
  constructor
  · refine hprocs.of_procs rfl (Or.inl rfl) rfl ?_
    dsimp only [trapHart]
    split
    · exact hs.pc
    · exact htvec
  · dsimp only [trapPoint]
    split_ifs <;> trivial

theorem finish_sound (hs : Sound cfg s) {e : End} (hpoint : PointOk (.ending e) s) :
    Sound cfg (finish cfg s e).2 ∧ PointOk (finish cfg s e).1 (finish cfg s e).2 := by
  obtain ⟨hlost, hnext⟩ := hpoint
  cases hretires : e.retires with
  | false =>
      cases e with
      | reset => exact ⟨hs, trivial⟩
      | lost => exact absurd rfl hlost
      | _ => cases hretires
  | true =>
      have hrd : Sound cfg (writeRd { s with csrMip := e.raise s.csrMip } e.rdId e.rd) ∧
          (writeRd { s with csrMip := e.raise s.csrMip } e.rdId e.rd).nextPc = s.nextPc := by
        unfold writeRd
        split
        · exact ⟨hs.of_procs rfl hs.cursor rfl hs.pc, rfl⟩
        · exact ⟨hs.of_procs rfl hs.cursor rfl hs.pc, rfl⟩
      have hretired : Sound cfg (retiredHart cfg s e) ∧ (retiredHart cfg s e).nextPc = s.nextPc := by
        obtain ⟨h, hn⟩ := hrd
        unfold retiredHart incrementInstret
        dsimp only
        split
        · exact ⟨h.of_procs rfl h.cursor rfl h.pc, hn⟩
        · have h' : Sound cfg
              { writeRd { s with csrMip := e.raise s.csrMip } e.rdId e.rd with csrMinstret := 0 } :=
            h.of_procs rfl h.cursor rfl h.pc
          exact ⟨h'.writeCsr fun hn => absurd hn (by decide), hn⟩
      rw [finish_eq cfg s hretires, endInstructionTrap_fst, endInstructionTrap_snd, hretired.2]
      refine ⟨hretired.1.of_procs rfl hretired.1.cursor rfl hnext, ?_⟩
      split_ifs <;> trivial

/-! ## Runs -/

/-- Every store meets `StoreOk` when it executes. -/
def StoresOk (cfg : PageConfig) (m : Machine) : Event → Prop
  | .step =>
      match m.point with
      | .execute d rs1 rs2 => StoreOk cfg d rs1 rs2 m.hart
      | _ => True
  | _ => True

/-- The worker is not about to execute a store. -/
def Point.isStoreFree : Point → Bool
  | .execute d _ _ => (labels (d.opId + 192)).all fun label => label ∉ [.SB, .SH, .SW, .SC_W]
  | _ => true

theorem storesOk_of_isStoreFree {m : Machine} (e : Event) (h : m.point.isStoreFree = true) :
    StoresOk cfg m e := by
  cases e with
  | step =>
      unfold StoresOk
      cases hpoint : m.point with
      | execute d rs1 rs2 =>
          rw [hpoint] at h
          intro label hlabel
          have hstore : label ∉ [.SB, .SH, .SW, .SC_W] := by
            simpa [Point.isStoreFree, hlabel] using h
          exact ⟨fun hl => absurd hl hstore, fun hl => absurd (by simp [hl]) hstore⟩
      | _ => trivial
  | _ => trivial

theorem storesOk_of_boundary {m : Machine} (e : Event) (h : m.point.isBoundary = true) :
    StoresOk cfg m e := by
  refine storesOk_of_isStoreFree e ?_
  cases hpoint : m.point with
  | execute d rs1 rs2 =>
      rw [hpoint] at h
      cases h
  | _ => rfl

/-- The worker is not about to execute a store, or the store of M-mode writes a word to a mapped
address. -/
def Machine.storesMapped (cfg : PageConfig) (m : Machine) : Bool :=
  m.point.isStoreFree || match m.point with
    | .execute d rs1 rs2 => decide (¬m.hart.effectivePrivilegeMode < 0b11 ∧ IsWord rs2 ∧
        opMod (effectiveAddress rs1 d.imm) 4 = 0 ∧ Mapped cfg m.hart (effectiveAddress rs1 d.imm))
    | _ => true

theorem storesOk_of_storesMapped {m : Machine} (e : Event) (h : m.storesMapped cfg = true) :
    StoresOk cfg m e := by
  rcases Bool.or_eq_true_iff.mp h with hfree | hmapped
  · exact storesOk_of_isStoreFree e hfree
  cases e with
  | step =>
      unfold StoresOk
      cases hpoint : m.point with
      | execute d rs1 rs2 =>
          rw [hpoint] at hmapped
          obtain ⟨hmode, hword, halign, hmapped⟩ := of_decide_eq_true hmapped
          refine fun label _ => ⟨fun _ => hword, fun _ address s' hx => ?_⟩
          rw [setupLoadAndStoreValue_machine hmode halign] at hx
          obtain ⟨rfl, -⟩ := EStateM.Result.ok.inj hx
          exact hmapped
      | _ => trivial
  | _ => trivial

theorem SoundMachine.ready {m : Machine} (h : SoundMachine cfg m) {d : Fetched} {rs1 rs2 : Int}
    (hpoint : m.point = .execute d rs1 rs2) (hg : StoresOk cfg m .step) :
    Ready cfg d rs1 rs2 m.hart := by
  have hp := h.point
  simp only [StoresOk, hpoint, PointOk] at hp hg
  exact ⟨hp.1, h.hart.cursor.var, h.hart.csrLabels, hg⟩

theorem SoundMachine.step {m : Machine} (h : SoundMachine cfg m) (hg : StoresOk cfg m .step) :
    SoundMachine cfg (m.step cfg) := by
  have hs := h.hart
  have hp := h.point
  suffices hstep : Sound cfg (stepPoint cfg m.point m.hart).2 ∧
      PointOk (stepPoint cfg m.point m.hart).1 (stepPoint cfg m.point m.hart).2 from ⟨hstep.1, hstep.2⟩
  cases hpoint : m.point with
  | pollInterrupts => exact ⟨hs.of_procs rfl hs.cursor rfl hs.pc, trivial⟩
  | fireInterrupts =>
      have hlowered : Sound cfg (loweredHart m.hart) := hs.of_procs rfl hs.cursor rfl hs.pc
      rcases fireInterrupts_cases cfg m.hart with heq | ⟨i, heq⟩
      · rw [stepPoint, heq]
        exact ⟨hlowered, trivial⟩
      · rw [stepPoint, heq]
        exact trapCheckMxdeleg_sound hlowered _ _
  | main =>
      have hfetch := fetch_correct cfg m.hart
      rw [stepPoint]
      cases hx : fetch cfg m.hart with
      | ok d s' =>
          obtain ⟨d', rfl, hd⟩ := wp_ok hfetch hx hs
          obtain ⟨hs', hvalid, hnext⟩ := hd.sound hs
          exact ⟨hs', hvalid, hnext⟩
      | error t s' =>
          obtain ⟨hload, -⟩ := wp_error hfetch hx
          have hs' : Sound cfg (fetchHart m.hart) := hs.of_procs rfl hs.cursor rfl hs.pc
          exact ⟨hload.sound hs', trivial⟩
  | execute d rs1 rs2 =>
      rw [stepPoint]
      cases hx : execute cfg d rs1 rs2 m.hart with
      | ok e s' =>
          obtain ⟨label, -, heffect⟩ := execute_effect (h.ready hpoint hg) hx
          rw [hpoint] at hp
          obtain ⟨hs', hnext, hlost⟩ := heffect.sound hs hp.2
          exact ⟨hs', hlost, hnext⟩
      | error t s' =>
          obtain ⟨label, -, hload, -⟩ := execute_raises hx
          exact ⟨hload.sound hs, trivial⟩
  | ending e =>
      rw [hpoint] at hp
      exact finish_sound hs hp
  | trap t => exact trapCheckMxdeleg_sound hs _ t
  | reset => exact ⟨hs, trivial⟩
  | lost =>
      rw [hpoint] at hp
      exact hp.elim

/-- The value that the writes of a reset leave in a CSR, if they write it. -/
def resetCsr (n : Nat) : Option Value :=
  resetCsrs.foldl (fun r w => if w.1 = n then some w.2 else r) none

theorem resetHart_csrs (cfg : PageConfig) (s : Hart) (uartFlags : Int) (n : Nat) :
    (resetHart cfg s uartFlags).procs cfg.csrs n = (resetCsr n).getD (s.procs cfg.csrs n) := by
  have hfold (ws : List (Nat × Value)) (procs : Procs) (r : Option Value)
      (hr : procs cfg.csrs n = r.getD (s.procs cfg.csrs n)) :
      ws.foldl (fun p w => writeProc p cfg.csrs (.var w.1) w.2) procs cfg.csrs n =
        (ws.foldl (fun r w => if w.1 = n then some w.2 else r) r).getD (s.procs cfg.csrs n) := by
    induction ws generalizing procs r with
    | nil => exact hr
    | cons w ws ih =>
        refine ih _ _ ?_
        dsimp only
        by_cases h : w.1 = n
        · rw [if_pos h, ← h]
          exact writeProc_var_self procs cfg.csrs w.1 w.2
        · rw [if_neg h, ← hr]
          exact if_neg fun h' => h h'.2.symm
  exact hfold resetCsrs s.procs none rfl

theorem SoundMachine.reset {m : Machine} (h : SoundMachine cfg m) : SoundMachine cfg (m.reset cfg) := by
  refine ⟨?_, trivial⟩
  refine h.hart.of_csrs (fun t ht => funext (resetHart_procs_of_ne m.hart _ ht))
    (Or.inl rfl) ?_ ⟨le_rfl, rfl⟩
    fun n hn => ?_
  · have hnonneg := (mlogsysEtext_range cfg 0)
    exact hnonneg.1.trans hnonneg.2
  · have hvalue : ((resetCsr n).map Value.toNum).any fun x => 0 ≤ x ∧ x % 4 = 0 :=
      (show ∀ n ∈ [mtvecCsr, stvecCsr, mepcCsr, sepcCsr],
        ((resetCsr n).map Value.toNum).any fun x => 0 ≤ x ∧ x % 4 = 0 by decide) n hn
    change CodeAddress ((resetHart cfg m.hart _).procs cfg.csrs n).toNum
    rw [resetHart_csrs]
    cases hr : resetCsr n with
    | none =>
        rw [hr] at hvalue
        cases hvalue
    | some v =>
        rw [hr] at hvalue
        have hcode : 0 ≤ v.toNum ∧ v.toNum % 4 = 0 := of_decide_eq_true hvalue
        exact hcode

theorem soundMachine_start (cfg : PageConfig) (uarts : Uarts) :
    SoundMachine cfg (Machine.start cfg uarts) := by
  refine SoundMachine.reset ⟨?_, trivial⟩
  have hnull {t : Tile} (h : t ≠ cfg.incr) (h' : t ≠ cfg.csrLabels)
      (i : Nat) : initProcs cfg t i = .null := by
    rw [initProcs, if_neg h, if_neg h']
  refine ⟨fun i => ?_, fun i => ?_, fun a ha => Or.inl ?_, Or.inl rfl, ?_, ⟨le_rfl, rfl⟩, fun n _ => ?_⟩
  · exact (if_pos rfl).trans (initIncr_eq i)
  · exact (if_neg cfg.incr_ne_csrLabels.symm).trans (if_pos rfl)
  · rw [cell, accessRamRaw_eq cfg ha.inCells.1]
    have hincr := ha.inCells.ne_incr
    have hlabels := ha.inCells.ne_csrLabels
    rw [accessRamRaw_eq cfg ha.inCells.1] at hincr hlabels
    exact hnull hincr hlabels _
  · have hnonneg := mlogsysEtext_range cfg 0
    exact hnonneg.1.trans hnonneg.2
  · have hcsr : (Machine.powerOn cfg uarts).hart.csr cfg n = 0 :=
      congrArg Value.toNum (hnull cfg.csrs_ne_incr cfg.csrs_ne_csrLabels n)
    rw [hcsr]
    exact ⟨le_rfl, rfl⟩

/-- Hand-offs and ticks change counters, timers and flags. -/
theorem SoundMachine.apply {m : Machine} (h : SoundMachine cfg m) (e : Event) (hg : StoresOk cfg m e) :
    SoundMachine cfg (m.apply cfg e) := by
  have hs := h.hart
  have hpoint {s' : Hart} (hnext : s'.nextPc = m.hart.nextPc) : PointOk m.point s' := by
    have hp := h.point
    cases hpt : m.point <;> rw [hpt] at hp <;> simp only [PointOk, hnext] at hp ⊢ <;> exact hp
  cases e with
  | step => exact h.step hg
  | reset => exact h.reset
  | device uarts => exact ⟨hs.of_procs rfl hs.cursor rfl hs.pc, hpoint rfl⟩
  | tick delta =>
      rw [Machine.apply]
      split
      · exact ⟨hs.of_procs rfl hs.cursor rfl hs.pc, hpoint rfl⟩
      · exact h
  | handOff =>
      rw [Machine.apply]
      split
      · unfold incrementMcycle
        dsimp only
        split
        · exact ⟨hs.of_procs rfl hs.cursor rfl hs.pc, hpoint rfl⟩
        · have hs' : Sound cfg { m.hart with csrMcycle := 0 } := hs.of_procs rfl hs.cursor rfl hs.pc
          exact ⟨hs'.writeCsr fun hn => absurd hn (by decide), hpoint rfl⟩
      · exact h

/-- The states that a run reaches from the first reset if its stores are `StoreOk`. -/
abbrev Reaches (cfg : PageConfig) (guard : Machine → Event → Prop) : Machine → Prop :=
  Reachable (fun m => ∃ uarts, m = Machine.start cfg uarts) guard (Machine.apply cfg)

theorem Reaches.sound {guard : Machine → Event → Prop}
    (hguard : ∀ m e, guard m e → StoresOk cfg m e) {m : Machine} (h : Reaches cfg guard m) :
    SoundMachine cfg m := by
  refine Reachable.invariant (fun m hm => ?_) (fun m e hm hg => hm.apply e (hguard m e hg)) h
  obtain ⟨uarts, rfl⟩ := hm
  exact soundMachine_start cfg uarts

/-- A list of events of a machine whose stores are mapped leads to a state of a good run. -/
theorem Reaches.events {m : Machine} (h : Reaches cfg (StoresOk cfg) m) (es : List Event)
    (hes : ∀ i < es.length, (m.run cfg (es.take i)).storesMapped cfg = true) :
    Reaches cfg (StoresOk cfg) (m.run cfg es) :=
  Reachable.run h es fun i hi => storesOk_of_storesMapped _ (hes i hi)

end Mlogv32.Cpu
