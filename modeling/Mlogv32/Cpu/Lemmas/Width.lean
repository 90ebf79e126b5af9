import Mlogv32.Cpu.Lemmas.Words

/-!
# Runs without a carry

If no event carries out of pc or out of the high half of a counter, and no store overwrites a
processor of the CPU, the hart holds words in every state that it reaches.
-/

namespace Mlogv32.Cpu
open Mlog Logic Isa

variable {cfg : PageConfig} {s s' : Hart}

/-! ## Carries -/

/-- The fast path of SW meets a mapped address. -/
def SwMapped (cfg : PageConfig) (m : Machine) : Event → Prop
  | .step =>
      match m.point with
      | .execute d rs1 _ => labels (d.opId + 192) = some .SW → ∀ address s',
          setupLoadAndStoreValue cfg 6 rs1 d.imm 32 m.hart = .ok address s' →
          Mapped cfg m.hart address
      | _ => True
  | _ => True

/-- No carry leaves the address space or the high half of a counter: an instruction at the last
address leaves it without a link, unless it traps or halts, and the counters are below 2^64 after
they count. -/
def NoCarry (cfg : PageConfig) (m : Machine) : Event → Prop
  | .step =>
      match m.point with
      | .execute d rs1 rs2 => m.hart.pc = topPc →
          (∃ e s', execute cfg d rs1 rs2 m.hart = .ok e s' ∧ e.retires = true) →
          ∀ label, labels (d.opId + 192) = some label → Leaves label d rs1 rs2
      | .ending e => e.retires = true →
          m.hart.csr cfg minstrethCsr * 2 ^ 32 + m.hart.csrMinstret + 1 < 2 ^ 64
      | _ => True
  | .handOff => m.point.isRunning = true →
      m.hart.csr cfg mcyclehCsr * 2 ^ 32 + m.hart.csrMcycle + 1 < 2 ^ 64
  | .tick delta => m.point.isRunning = true →
      m.hart.csrMtimeh * 2 ^ 32 + saturate ⌊number (m.hart.csrMtime + delta)⌋ < 2 ^ 64
  | _ => True

/-! ## Steps -/

structure WordMachine (cfg : PageConfig) (m : Machine) : Prop where
  sound : SoundMachine cfg m
  mode : ModeOk m.hart
  words : Words cfg m.hart
  point : PointWords m.point m.hart

theorem WordMachine.storesOk {m : Machine} (h : WordMachine cfg m) {e : Event}
    (hsw : SwMapped cfg m e) : StoresOk cfg m e := by
  cases e with
  | step =>
      unfold StoresOk
      cases hpoint : m.point with
      | execute d rs1 rs2 =>
          have hp := h.point
          rw [hpoint] at hp
          rw [SwMapped, hpoint] at hsw
          exact fun label hlabel => ⟨fun _ => hp.2.1, fun hl => hsw (hl ▸ hlabel)⟩
      | _ => trivial
  | _ => trivial

theorem Fetches.words {d : Fetched} (h : Fetches cfg s d s') :
    wordsOf cfg s' = wordsOf cfg s ∧ s'.nextPc = s.pc + 4 ∧ s'.pc = s.pc ∧
      s'.csrMinstret = s.csrMinstret := by
  have hload {a : Int} {s₁ : Hart} (ha : fetchAddress cfg (fetchHart s) = .ok a s₁) :
      LoadFrame (fetchHart s) s₁ := (wp_ok (fetchAddress_frame cfg (fetchHart s)) ha).1
  cases h with
  | cursor => exact ⟨rfl, rfl, rfl, rfl⟩
  | icache _ ha =>
      obtain ⟨_, _, _, rfl, _⟩ := hload ha
      exact ⟨rfl, rfl, rfl, rfl⟩
  | slow _ ha =>
      obtain ⟨_, _, _, rfl, _⟩ := hload ha
      exact ⟨rfl, rfl, rfl, rfl⟩

/-- The end of an instruction, if the counter does not overflow. -/
theorem finish_words (h : Words cfg s) {e : End} (hpoint : PointWords (.ending e) s)
    (hcarry : e.retires = true → s.csr cfg minstrethCsr * 2 ^ 32 + s.csrMinstret + 1 < 2 ^ 64) :
    Words cfg (finish cfg s e).2 ∧ PointWords (finish cfg s e).1 (finish cfg s e).2 := by
  cases hretires : e.retires with
  | false =>
      have hminstret := hpoint.2 hretires
      cases e with
      | reset => exact ⟨h, hminstret⟩
      | lost => exact ⟨h, hminstret⟩
      | _ => cases hretires
  | true =>
      obtain ⟨hrd, hnext, hlow, hhigh⟩ := hpoint.1 hretires
      have hcarry := hcarry hretires
      have hmip : Words cfg { s with csrMip := e.raise s.csrMip } := h.frame rfl
      have hwrite : Words cfg (writeRd { s with csrMip := e.raise s.csrMip } e.rdId e.rd) :=
        hmip.writeRd hrd
      have hframe : (writeRd { s with csrMip := e.raise s.csrMip } e.rdId e.rd).csrMinstret =
          s.csrMinstret ∧
          (writeRd { s with csrMip := e.raise s.csrMip } e.rdId e.rd).csr cfg minstrethCsr =
            s.csr cfg minstrethCsr ∧
          (writeRd { s with csrMip := e.raise s.csrMip } e.rdId e.rd).nextPc = s.nextPc := by
        unfold writeRd
        split
        · exact ⟨rfl, rfl, rfl⟩
        · exact ⟨rfl, rfl, rfl⟩
      have hretired : Words cfg (retiredHart cfg s e) ∧
          IsWord (retiredHart cfg s e).csrMinstret ∧ (retiredHart cfg s e).nextPc = s.nextPc := by
        unfold retiredHart
        generalize writeRd { s with csrMip := e.raise s.csrMip } e.rdId e.rd = s₁ at hwrite hframe
        obtain ⟨hminstret, hminstreth, hnext'⟩ := hframe
        unfold incrementInstret
        rw [hminstret]
        dsimp only
        split
        · rename_i hlt
          exact ⟨hwrite.frame rfl, ⟨by dsimp only; omega, hlt⟩, hnext'⟩
        · have hzero : Words cfg { s₁ with csrMinstret := 0 } := hwrite.frame rfl
          obtain ⟨h0, -⟩ := h.csrs minstrethCsr
          exact ⟨hzero.writeCsr minstrethCsr ⟨by omega, by omega⟩, (by decide : IsWord 0), hnext'⟩
      obtain ⟨hwords, hminstret, hnext'⟩ := hretired
      rw [finish_eq cfg s hretires, endInstructionTrap_fst, endInstructionTrap_snd, hnext']
      refine ⟨⟨hwords.registers, hwords.x0, hwords.csrs, hnext, hwords.mie, hwords.mcycle,
        hwords.stimecmp, hwords.timers⟩, ?_⟩
      split_ifs <;> exact hminstret

theorem WordMachine.executeOk {m : Machine} (h : WordMachine cfg m) {d : Fetched} {rs1 rs2 : Int}
    (hpoint : m.point = .execute d rs1 rs2) (hsw : SwMapped cfg m .step)
    (hcarry : NoCarry cfg m .step) {e : End} (hx : execute cfg d rs1 rs2 m.hart = .ok e s') :
    Words cfg s' ∧ PointWords (.ending e) s' := by
  have hs := h.sound.hart
  have hready := h.sound.ready hpoint (h.storesOk hsw)
  have hd := hready.valid
  have hp := h.point
  rw [hpoint] at hp
  obtain ⟨h1, h2, hnext, hminstret⟩ := hp
  obtain ⟨label, hlabel, heffect⟩ := execute_effect hready hx
  obtain ⟨hwords, hrange, hhalt⟩ := heffect.words h.words hs hminstret
  refine ⟨hwords, fun hretires => ?_, hhalt⟩
  have hresult : (e.rdId ≠ 0 → IsWord e.rd) ∧ IsWord s'.nextPc := by
    by_cases htop : m.hart.pc = topPc
    · -- pc + 4 is no word, so the instruction has to leave
      have hleaves : Leaves label d rs1 rs2 := by
        rw [NoCarry, hpoint] at hcarry
        exact hcarry htop ⟨e, s', hx, hretires⟩ label hlabel
      obtain ⟨hrd, hword⟩ := wp_ok (hleaves.word hlabel h.words) hx hretires
      exact ⟨fun hne => absurd hrd hne, hword⟩
    · have hpc := h.words.pc
      have halign := hs.pc.2
      refine heffect.result_word hlabel hd h.words hs hminstret h1 h2 hnext ⟨?_, ?_⟩
      · have := hpc.1
        omega
      · have := hpc.2
        unfold topPc at htop
        omega
  exact ⟨hresult.1, hresult.2, hrange⟩

theorem WordMachine.step {m : Machine} (h : WordMachine cfg m) (hsw : SwMapped cfg m .step)
    (hcarry : NoCarry cfg m .step) : WordMachine cfg (m.step cfg) := by
  have hs := h.sound.hart
  have hw := h.words
  have hp := h.point
  suffices hstep : Words cfg (stepPoint cfg m.point m.hart).2 ∧
      PointWords (stepPoint cfg m.point m.hart).1 (stepPoint cfg m.point m.hart).2 from
    ⟨h.sound.step (h.storesOk hsw), stepPoint_mode m.point h.mode, hstep.1, hstep.2⟩
  cases hpoint : m.point with
  | pollInterrupts =>
      rw [hpoint] at hp
      exact ⟨hw.frame rfl, hp⟩
  | fireInterrupts =>
      rw [hpoint] at hp
      have hlowered : Words cfg (loweredHart m.hart) := hw.frame rfl
      rw [stepPoint]
      rcases fireInterrupts_cases cfg m.hart with heq | ⟨i, heq⟩
      · rw [heq]
        exact ⟨hlowered, hp⟩
      · rw [heq]
        exact hlowered.trap hp (by cases i <;> exact ⟨by decide, by decide⟩) _
  | main =>
      rw [hpoint] at hp
      have hfetch := fetch_correct cfg m.hart
      rw [stepPoint]
      cases hx : fetch cfg m.hart with
      | ok d s' =>
          obtain ⟨d', rfl, hd⟩ := wp_ok hfetch hx hs
          obtain ⟨hwords, hnext, hpc, hminstret⟩ := hd.words
          have hvalid := (hd.sound hs).2.1
          have hw' : Words cfg s' := hw.frame hwords
          have hnext' : s'.nextPc = s'.pc + 4 := by rw [hnext, hpc]
          have hminstret' : IsWord s'.csrMinstret := by
            rw [hminstret]
            exact hp
          exact ⟨hw', hw'.registers _ hvalid.rs1Id.1 hvalid.rs1Id.2,
            hw'.registers _ hvalid.rs2Id.1 hvalid.rs2Id.2, hnext', hminstret'⟩
      | error t s' =>
          obtain ⟨hload, hraises⟩ := wp_error hfetch hx
          have hframe : Words cfg (fetchHart m.hart) := hw.frame rfl
          obtain ⟨_, _, _, rfl, _⟩ := hload
          exact ⟨hframe.frame rfl, hraises.word hw, hp⟩
  | execute d rs1 rs2 =>
      rw [stepPoint]
      cases hx : execute cfg d rs1 rs2 m.hart with
      | ok e s' => exact h.executeOk hpoint hsw hcarry hx
      | error t s' =>
          have hvalid := (h.sound.ready hpoint (h.storesOk hsw)).valid
          rw [hpoint] at hp
          obtain ⟨h1, -, -, hminstret⟩ := hp
          obtain ⟨label, -, hload, hraises⟩ := execute_raises hx
          have ht := hraises.word hvalid hw h.mode h1
          obtain ⟨_, _, _, rfl, _⟩ := hload
          exact ⟨hw.frame rfl, ht, hminstret⟩
  | ending e =>
      rw [hpoint] at hp
      rw [NoCarry, hpoint] at hcarry
      exact finish_words hw hp hcarry
  | trap t =>
      rw [hpoint] at hp
      exact hw.trap hp.2 hp.1 _
  | reset =>
      rw [hpoint] at hp
      exact ⟨hw, hp⟩
  | lost =>
      rw [hpoint] at hp
      exact ⟨hw, hp⟩

/-! ## Ticks, hand-offs and resets -/

theorem updateMtime_timers (h : TimersOk s) {delta : NNRat}
    (hcarry : s.csrMtimeh * 2 ^ 32 + saturate ⌊number (s.csrMtime + delta)⌋ < 2 ^ 64) :
    TimersOk (updateMtime s delta) := by
  obtain ⟨hmtime, hmtimeh, hcmp⟩ := h
  have hsum : (0 : ℚ) ≤ (s.csrMtime : ℚ) + (delta : ℚ) :=
    add_nonneg (by exact_mod_cast hmtime.1) delta.coe_nonneg
  have hfloor : 0 ≤ ⌊number ((s.csrMtime : ℚ) + (delta : ℚ))⌋ :=
    Int.floor_nonneg.mpr (number_nonneg hsum)
  refine ⟨opMod_range (b := 0x100000000) hfloor (by decide), ?_, hcmp⟩
  change IsWord (toDouble (s.csrMtimeh + opShr (saturate ⌊number (s.csrMtime + delta)⌋) 32))
  generalize ⌊number ((s.csrMtime : ℚ) + (delta : ℚ))⌋ = mtime at hfloor hcarry
  have hlow : 0 ≤ saturate mtime := by
    unfold saturate
    omega
  have hhigh : saturate mtime < 2 ^ 63 := by
    unfold saturate
    omega
  have hshr : opShr (saturate mtime) 32 = saturate mtime / 2 ^ 32 :=
    opShr_eq _ 32 (by decide) (by omega) hhigh
  have hword := hmtimeh.1
  have hexact : Exact (s.csrMtimeh + saturate mtime / 2 ^ 32) := ⟨by omega, by omega⟩
  rw [hshr, toDouble_of_exact hexact]
  exact ⟨by omega, by omega⟩

theorem Words.handOff (h : Words cfg s)
    (hcarry : s.csr cfg mcyclehCsr * 2 ^ 32 + s.csrMcycle + 1 < 2 ^ 64) :
    Words cfg (incrementMcycle cfg s) := by
  have hmcycle := h.mcycle
  have hmcycleh := h.csrs mcyclehCsr
  unfold incrementMcycle
  dsimp only
  split
  · rename_i hlt
    have hword : IsWord (s.csrMcycle + 1) := ⟨add_nonneg hmcycle.1 (by decide), hlt⟩
    exact ⟨h.registers, h.x0, h.csrs, h.pc, h.mie, hword, h.stimecmp, h.timers⟩
  · have hzero : Words cfg { s with csrMcycle := 0 } :=
      ⟨h.registers, h.x0, h.csrs, h.pc, h.mie, (by decide : IsWord 0), h.stimecmp, h.timers⟩
    obtain ⟨h0, hlt⟩ := hmcycleh
    obtain ⟨-, hmcycle⟩ := hmcycle
    exact hzero.writeCsr mcyclehCsr ⟨by omega, by omega⟩

theorem words_reset (hcsrs : ∀ n, IsWord (s.csr cfg n)) (uartFlags : Int) :
    Words cfg (resetHart cfg s uartFlags) := by
  have hzero : IsWord 0 := by decide
  have hcleared (i : Int) (h0 : 0 ≤ i) (hlt : i < 32) :
      (resetHart cfg s uartFlags).registers i = 0 := if_pos ⟨h0, hlt⟩
  have hfold (ws : List (Nat × Value)) (hws : ∀ w ∈ ws, IsWord w.2.toNum) (procs : Procs)
      (hprocs : ∀ n, IsWord (procs cfg.csrs n).toNum) (n : Nat) :
      IsWord (ws.foldl (fun p w => writeProc p cfg.csrs (.var w.1) w.2) procs
        cfg.csrs n).toNum := by
    induction ws generalizing procs with
    | nil => exact hprocs n
    | cons w ws ih =>
        refine ih (fun w' hw' => hws w' (List.mem_cons_of_mem w hw')) _ fun m => ?_
        dsimp only
        by_cases hm : m = w.1
        · subst hm
          rw [writeProc_var_self]
          exact hws w List.mem_cons_self
        · have heq : writeProc procs cfg.csrs (.var w.1) w.2 cfg.csrs m = procs cfg.csrs m :=
            if_neg fun h => hm h.2
          rw [heq]
          exact hprocs m
  have hresets : ∀ w ∈ resetCsrs, IsWord w.2.toNum := by decide
  refine ⟨fun i h0 hlt => ?_, hcleared 0 le_rfl (by decide), hfold resetCsrs hresets s.procs hcsrs,
    hzero, hzero, hzero, ⟨hzero, hzero⟩, hzero, hzero, hzero, hzero⟩
  rw [hcleared i h0 hlt]
  exact hzero

theorem wordMachine_start (cfg : PageConfig) (uarts : Uarts) :
    WordMachine cfg (Machine.start cfg uarts) := by
  have hcsrs (n : Nat) : IsWord ((Machine.powerOn cfg uarts).hart.csr cfg n) := by
    have hnull : initProcs cfg cfg.csrs n = .null := by
      rw [initProcs, if_neg cfg.csrs_ne_incr, if_neg cfg.csrs_ne_csrLabels]
    change IsWord (initProcs cfg cfg.csrs n).toNum
    rw [hnull]
    decide
  exact ⟨soundMachine_start cfg uarts, modeOk_of_eq (rfl : _ = (3 : Int)) (by decide),
    words_reset hcsrs _, (by decide : IsWord 0)⟩

theorem WordMachine.apply {m : Machine} (h : WordMachine cfg m) (e : Event) (hsw : SwMapped cfg m e)
    (hcarry : NoCarry cfg m e) : WordMachine cfg (m.apply cfg e) := by
  have hsound := h.sound.apply e (h.storesOk hsw)
  have hmode : ModeOk (m.apply cfg e).hart := Machine.apply_mode h.mode e
  have hpoint {s' : Hart} (hpc : s'.pc = m.hart.pc) (hnext : s'.nextPc = m.hart.nextPc)
      (hminstret : s'.csrMinstret = m.hart.csrMinstret) : PointWords m.point s' := by
    have hp := h.point
    cases hpt : m.point <;> rw [hpt] at hp <;>
      simp only [PointWords, hpc, hnext, hminstret] at hp ⊢ <;> exact hp
  cases e with
  | step => exact h.step hsw hcarry
  | reset =>
      exact ⟨hsound, hmode, words_reset h.words.csrs _, (by decide : IsWord 0)⟩
  | device uarts => exact ⟨hsound, hmode, h.words.frame rfl, hpoint rfl rfl rfl⟩
  | tick delta =>
      by_cases hrun : m.point.isRunning = true
      · have hw := h.words
        have htimers : TimersOk (updateMtime m.hart delta) :=
          updateMtime_timers hw.timers (hcarry hrun)
        have happly : m.apply cfg (.tick delta) = m.tick delta := if_pos hrun
        rw [happly] at hsound hmode ⊢
        exact ⟨hsound, hmode, ⟨hw.registers, hw.x0, hw.csrs, hw.pc, hw.mie, hw.mcycle, hw.stimecmp,
          htimers⟩, hpoint rfl rfl rfl⟩
      · have happly : m.apply cfg (.tick delta) = m := if_neg hrun
        rw [happly]
        exact h
  | handOff =>
      by_cases hrun : m.point.isRunning = true
      · have happly : m.apply cfg .handOff = { m with hart := incrementMcycle cfg m.hart } :=
          if_pos hrun
        have hframe : (incrementMcycle cfg m.hart).pc = m.hart.pc ∧
            (incrementMcycle cfg m.hart).nextPc = m.hart.nextPc ∧
            (incrementMcycle cfg m.hart).csrMinstret = m.hart.csrMinstret := by
          unfold incrementMcycle
          dsimp only
          split
          · exact ⟨rfl, rfl, rfl⟩
          · exact ⟨rfl, rfl, rfl⟩
        rw [happly] at hsound hmode ⊢
        exact ⟨hsound, hmode, h.words.handOff (hcarry hrun), hpoint hframe.1 hframe.2.1 hframe.2.2⟩
      · have happly : m.apply cfg .handOff = m := if_neg hrun
        rw [happly]
        exact h

end Mlogv32.Cpu
