import Mlogv32.Cpu.Lemmas.Effect

/-!
# Every handler has an effect

One lemma for each group of handlers, and `execute_effect` for the dispatch.
-/

namespace Mlogv32.Cpu
open Mlog Logic Isa

variable {cfg : PageConfig} {label : Label} {d : Fetched} {rs1 rs2 : Int} {s : Hart}

/-- The handler has the effect of its instruction, or raises one of its exceptions. -/
abbrev Correct (cfg : PageConfig) (label : Label) (d : Fetched) (rs1 rs2 : Int) (s : Hart)
    (x : Op End) : Prop :=
  wp x (fun e s' => Ready cfg d rs1 rs2 s → Effect cfg label d rs1 rs2 s e s')
    (fun t s' => LoadFrame s s' ∧ Raises cfg label d rs1 rs2 s t) s

/-! ## Jumps -/

theorem unconditionalJump_correct {rdId nextPc : Int}
    (hjump : label ∈ [.JAL, .JALR] ∨ branchTaken label rs1 rs2 = some true)
    (hrd : rdId = 0 ∨ (rdId = d.rdId ∧ label ∈ [.JAL, .JALR]))
    (htarget : opAnd nextPc 0xffffffff = jumpTarget label d rs1 s.pc) :
    Correct cfg label d rs1 rs2 s (unconditionalJump rdId nextPc) := by
  have hword : IsWord (jumpTarget label d rs1 s.pc) := htarget ▸ isWord_opAnd _ (by decide)
  have hmod : opMod (jumpTarget label d rs1 s.pc) 4 = jumpTarget label d rs1 s.pc % 4 :=
    opMod_eq hword.1 (by decide)
  simp only [Correct, unconditionalJump, htarget, hmod, wp_bind, wp_get, wp_ite,
    wp_throw, wp_set, wp_pure]
  refine ⟨fun halign => ⟨.refl s, .jump hjump halign⟩, fun halign =>
    ⟨fun hnull h => ?_, fun hvar => ⟨fun _ _ => ?_,
    fun hpage => ?_⟩⟩⟩
  · have hv : s.icacheVar = .null := by
      rcases h.cursor with hv | ⟨i, hv⟩
      · exact hv
      · rw [hv] at hnull
        cases hnull
    have heq : ({ s with nextPc := jumpTarget label d rs1 s.pc } : Hart) =
        { s with nextPc := jumpTarget label d rs1 s.pc, icacheVar := .null } := by
      rw [← hv]
    rw [heq]
    exact .jump hrd ⟨hword, not_not.mp halign⟩ (Or.inl rfl)
  · exact .jump hrd ⟨hword, not_not.mp halign⟩ (Or.inl rfl)
  · cases hv : s.icacheVar with
    | var i =>
        exact fun _ => .jump hrd ⟨hword, not_not.mp halign⟩ (Or.inr ⟨i, hv, not_not.mp hpage, rfl⟩)
    | null => exact absurd (by rw [hv]; rfl) hvar
    | num n =>
        intro h
        rcases h.cursor with h' | ⟨i, h'⟩
        · rw [hv] at h'
          cases h'
        · rw [hv] at h'
          cases h'

theorem jal_correct : Correct cfg .JAL d rs1 rs2 s (jal d.rdId d.imm) :=
  wp_bind.mpr (unconditionalJump_correct (Or.inl (by decide)) (Or.inr ⟨rfl, by decide⟩) rfl)

theorem jalr_correct : Correct cfg .JALR d rs1 rs2 s (jalr d.rdId rs1 d.imm) :=
  unconditionalJump_correct (Or.inl (by decide)) (Or.inr ⟨rfl, by decide⟩) rfl

theorem jumpTarget_branch {taken : Bool} (h : branchTaken label rs1 rs2 = some taken) (pc : Int) :
    jumpTarget label d rs1 pc = opAnd (pc + d.imm) 0xffffffff := by
  cases label <;> first | rfl | cases h

theorem branch_correct {taken : Bool} (h : branchTaken label rs1 rs2 = some taken) :
    Correct cfg label d rs1 rs2 s (branch taken d.imm) := by
  cases taken with
  | false => exact fun _ => .pass (Or.inl rfl)
  | true =>
      exact wp_bind.mpr (unconditionalJump_correct (Or.inr h) (Or.inl rfl)
        (jumpTarget_branch h s.pc).symm)

/-! ## Addresses -/

theorem translated_frame (cfg : PageConfig) (trap : Trap) (s : Hart) :
    wp (translated cfg trap) (fun a s' => LoadFrame s s' ∧ a % 4096 = trap.mtval % 4096)
      (fun _ s' => LoadFrame s s') s := by
  simp only [translated, wp_bind, wp_get, wp_ite, wp_pure]
  exact ⟨fun _ => wp_mono (translateVirtualAddress_frame cfg trap s) (fun _ _ h =>
    ⟨h.1, h.2.2⟩) fun _ _ h => h.2,
    fun _ => ⟨.refl s, trivial⟩⟩

theorem LoadFrame.effectivePrivilegeMode {s s' : Hart} (h : LoadFrame s s') :
    s'.effectivePrivilegeMode = s.effectivePrivilegeMode := by
  obtain ⟨_, _, _, rfl, _⟩ := h
  rfl

theorem LoadFrame.timersOk {s s' : Hart} (h : LoadFrame s s') : TimersOk s → TimersOk s' := by
  obtain ⟨_, _, _, rfl, _⟩ := h
  exact id

theorem LoadFrame.mapped {s s' : Hart} (h : LoadFrame s s') (address : Int) :
    Mapped cfg s' address ↔ Mapped cfg s address := by
  unfold Mapped
  rw [h.effectivePrivilegeMode]

/-- The exceptions that the handler of an access raises before it has an address. -/
theorem raises_of_address {op : MemOp} {t : Trap} {s' : Hart} (hop : memOp label = some op)
    (h : (virtualAddress op d.imm rs1 % memBytes op ≠ 0 ∧
        t = { mcause := misalignedCause op, mtval := virtualAddress op d.imm rs1 }) ∨
      (virtualAddress op d.imm rs1 % memBytes op = 0 ∧
        translated cfg (accessFault op (virtualAddress op d.imm rs1)) s = .error t s')) :
    Raises cfg label d rs1 rs2 s t := by
  rcases h with ⟨hmis, rfl⟩ | ⟨halign, hwalk⟩
  · exact .misaligned hop hmis
  · exact .walk hop halign hwalk

theorem setupLoadAndStoreValue_correct {mcause : Int} {n : Nat} (hn : n ∣ 4) :
    wp (setupLoadAndStoreValue cfg mcause rs1 d.imm (8 * n))
      (fun a s' => LoadFrame s s' ∧ a % n = 0 ∧ effectiveAddress rs1 d.imm % n = 0 ∧
        translated cfg { mcause := mcause + 1, mtval := effectiveAddress rs1 d.imm } s = .ok a s')
      (fun t s' => LoadFrame s s' ∧
        ((effectiveAddress rs1 d.imm % n ≠ 0 ∧
          t = { mcause := mcause, mtval := effectiveAddress rs1 d.imm }) ∨
          (effectiveAddress rs1 d.imm % n = 0 ∧
            translated cfg { mcause := mcause + 1, mtval := effectiveAddress rs1 d.imm } s =
              .error t s'))) s := by
  have hpos : 0 < n := Nat.pos_of_dvd_of_pos hn (by decide)
  have hdiv : opIdiv (8 * n) 8 = n := by
    rw [opIdiv_eq _ (by decide)]
    omega
  have hpage : (n : Int) ∣ 4096 := (Int.natCast_dvd_natCast.mpr hn).trans (by decide)
  have heq : setupLoadAndStoreValue cfg mcause rs1 d.imm (8 * n) = (do
      if effectiveAddress rs1 d.imm % n ≠ 0 then
        throw { mcause := mcause, mtval := effectiveAddress rs1 d.imm }
      translated cfg { mcause := mcause + 1, mtval := effectiveAddress rs1 d.imm }) := by
    simp only [setupLoadAndStoreValue, hdiv, ne_eq, opMod_eq_zero (Int.natCast_pos.mpr hpos)]
    rfl
  rw [heq]
  simp only [wp_bind, wp_ite, wp_throw]
  refine ⟨fun hmis => ⟨.refl s, Or.inl ⟨hmis, trivial⟩⟩, fun halign => ?_⟩
  have halign := not_not.mp halign
  have hframe := translated_frame cfg { mcause := mcause + 1, mtval := effectiveAddress rs1 d.imm } s
  refine wp_intro (fun a s' hx => ?_) fun t s' hx => ⟨(wp_error hframe hx :), Or.inr ⟨halign, hx⟩⟩
  obtain ⟨hs, hmod⟩ := wp_ok hframe hx
  refine ⟨hs, ?_, halign, hx⟩
  rw [← Int.emod_emod_of_dvd a hpage, hmod, Int.emod_emod_of_dvd _ hpage]
  exact halign

theorem atomicValidateAddress_correct {mcause : Int} :
    wp (atomicValidateAddress cfg mcause rs1)
      (fun a s' => LoadFrame s s' ∧ InRam cfg a ∧ a % 4 = 0)
      (fun t s' => LoadFrame s s' ∧
        ((rs1 % 4 ≠ 0 ∧ t = { mcause := mcause, mtval := rs1 }) ∨
          (rs1 % 4 = 0 ∧ translated cfg { mcause := mcause + 1, mtval := rs1 } s = .error t s') ∨
          (rs1 % 4 = 0 ∧ t = { mcause := mcause + 1, mtval := rs1 } ∧
            ∃ a, translated cfg { mcause := mcause + 1, mtval := rs1 } s = .ok a s' ∧
            ¬InRam cfg a))) s := by
  have heq : atomicValidateAddress cfg mcause rs1 = (do
      if rs1 % 4 ≠ 0 then throw { mcause := mcause, mtval := rs1 }
      let address ← translated cfg { mcause := mcause + 1, mtval := rs1 }
      if address < ramStart then throw { mcause := mcause + 1, mtval := rs1 }
      if address ≥ cfg.ramEnd then throw { mcause := mcause + 1, mtval := rs1 }
      return address) := by
    simp only [atomicValidateAddress, translated, ne_eq, opMod_eq_zero (show (0 : Int) < 4 by decide)]
    funext s
    split
    · rfl
    · rw [bind_get, bind_assoc, bind_get]
      split <;> rfl
  rw [heq]
  simp only [wp_bind, wp_ite, wp_throw, wp_pure]
  refine ⟨fun hmis => ⟨.refl s, Or.inl ⟨hmis, trivial⟩⟩, fun halign => ?_⟩
  have halign := not_not.mp halign
  have hframe := translated_frame cfg { mcause := mcause + 1, mtval := rs1 } s
  refine wp_intro (fun a s' hx => ?_) fun t s' hx =>
    ⟨(wp_error hframe hx :), Or.inr (Or.inl ⟨halign, hx⟩)⟩
  obtain ⟨hs, hmod⟩ := wp_ok hframe hx
  refine ⟨fun hlo => ⟨hs, Or.inr (Or.inr ⟨halign, trivial, a, hx, fun h => ?_⟩)⟩, fun hlo => ⟨fun hhi =>
    ⟨hs, Or.inr (Or.inr ⟨halign, trivial, a, hx, fun h => ?_⟩)⟩, fun hhi => ⟨hs, ?_, ?_⟩⟩⟩
  · exact absurd hlo (not_lt.mpr h.1)
  · exact absurd hhi (not_le.mpr h.2)
  · exact ⟨not_lt.mp hlo, not_le.mp hhi⟩
  · dsimp only at hmod
    omega

/-! ## Loads -/

theorem loadWord_isWord (cfg : PageConfig) (address : Int) (trap : Trap) (s : Hart) :
    wp (loadWord cfg address trap) (fun w _ => TimersOk s → IsWord w) (fun _ _ => True) s := by
  have hram : IsWord (loadRamWordUnchecked cfg s.procs address) := swapEndianness_word _
  have h0 : IsWord 0 := by decide
  simp only [loadWord, loadRamOrMmioWord, loadMmioWord, wp_bind, wp_get, wp_ite,
    wp_throw, wp_pure, h0, hram, implies_true, and_true, true_and]
  refine ⟨fun _ _ => loadRomWordUnchecked_word cfg address, fun _ _ _ _ =>
    ⟨fun _ => ⟨fun _ => ?_, fun _ _ => ?_⟩,
    fun _ _ htimers => ?_⟩⟩
  · exact wp_mono (loadUartStatus_word cfg _ s) (fun _ _ h _ => h) fun _ _ _ => trivial
  · exact wp_mono (loadUartRx_word cfg _ _ s) (fun _ _ h _ => h) fun _ _ _ => trivial
  · obtain ⟨h1, h2, h3, h4⟩ := htimers
    split_ifs
    · exact h1
    · exact h2
    · exact h3
    · exact h4

theorem extractValue_isWord {result : Int} (h : IsWord result) (address : Int) {k : Nat} (hk : k ≤ 32) :
    IsWord (extractValue result address k) := by
  have hpos : (0 : Int) < 2 ^ k := by positivity
  have hpow : (2 : Int) ^ k ≤ 2 ^ 32 := pow_le_pow_right₀ (by decide) hk
  have hrange := opMod_range (h.opShr (opMod address 4 * 8)).1 hpos
  exact ⟨hrange.1, by simp only [extractValue, opPow, Int.toNat_natCast]; omega⟩

theorem load_correct {op : LoadOp} (hop : memOp label = some (.load op)) :
    Correct cfg label d rs1 rs2 s (loadValue cfg d rs1 (8 * op.bytes) op.signed) := by
  have hbytes : op.bytes ∣ 4 := by cases op <;> decide
  have hlen : 8 * op.bytes ≤ 32 := by cases op <;> decide
  simp only [Correct, loadValue, wp_bind, wp_pure]
  refine wp_mono (setupLoadAndStoreValue_correct hbytes) (fun a s₁ h => ?_) fun t s₁ h =>
    ⟨h.1, raises_of_address hop h.2⟩
  obtain ⟨hs, -, halign, hwalk⟩ := h
  have hframe := loadWord_frame cfg a { mcause := 5, mtval := effectiveAddress rs1 d.imm } s₁
  have hword := loadWord_isWord cfg a { mcause := 5, mtval := effectiveAddress rs1 d.imm } s₁
  simp only [loadValueAt, wp_bind, wp_pure]
  refine wp_intro (fun w s₂ hx _ => ?_) fun t s₂ hx => ?_
  · have hs' := wp_ok hframe hx
    have hw := wp_ok hword hx
    refine .load (hs.trans hs') fun htimers => ?_
    have hw := hw (hs.timersOk htimers)
    split
    · exact truncatedRd_word _
    · exact_mod_cast extractValue_isWord hw a hlen
  · obtain ⟨rfl, rfl⟩ := wp_error hframe hx
    exact ⟨hs, .denied hop halign hwalk ⟨_, _, hx⟩⟩

/-! ## Stores -/

theorem Mapped.nonneg {a : Int} (h : Mapped cfg s a) : 0 ≤ a := by
  unfold Mapped at h
  unfold ramStart mmioStart syscon at h
  omega

theorem storeWord_correct {op : StoreOp} {a value : Int} {s₁ s₂ : Hart}
    (hop : memOp label = some (.store op))
    (hsetup : setupLoadAndStoreValue cfg 6 rs1 d.imm (8 * op.bytes) s = .ok a s₁)
    (hs : LoadFrame s s₁ ∧ LoadFrame s₁ s₂) (hlt : a < 2 ^ 32) (hsyscon : a ≠ syscon)
    (hvalue : Ready cfg d rs1 rs2 s → IsWord value ∧ Mapped cfg s a)
    (hwritten : if op = .sw then value = rs2 ∧ s₂ = s₁ else
      ∃ w, loadRamOrMmioWord cfg a { mcause := 7, mtval := effectiveAddress rs1 d.imm } s₁ = .ok w s₂ ∧
        value = insertValue w a rs2 (8 * op.bytes)) :
    wp (if opAnd a 0xfffffffc ≥ mmioStart then storeMmioWordUnchecked cfg (opAnd a 0xfffffffc) value
        else storeRamWordUnchecked cfg (opAnd a 0xfffffffc) value (accessRam cfg a) 0 0 : Op End)
      (fun e s' => Ready cfg d rs1 rs2 s → Effect cfg label d rs1 rs2 s e s')
      (fun t s' => LoadFrame s s' ∧ Raises cfg label d rs1 rs2 s t) s₂ := by
  have hmask : opAnd a 0xfffffffc = a / 4 % 2 ^ 30 * 4 := by
    rw [opAnd_mask a 2 30 (by decide) (by decide)]
    omega
  rw [wp_ite]
  refine ⟨fun hmmio => wp_intro (fun e s' hx hready => ?_) (fun t s' hx => ?_),
    fun hram => wp_intro (fun e s' hx hready => ?_) (fun t s' hx => ?_)⟩
  · obtain ⟨hword, hmapped⟩ := hvalue hready
    have hnonneg := hmapped.nonneg
    have hge : mmioStart ≤ a := by
      rw [hmask] at hmmio
      omega
    exact .storeMmio hop hsetup hs ⟨hge, hmapped⟩ hword hx hsyscon hwritten
  · exact (wp_error (storeMmioWordUnchecked_ok cfg _ value s₂) hx).elim
  · obtain ⟨hword, hmapped⟩ := hvalue hready
    have hnonneg := hmapped.nonneg
    have heq : opAnd a 0xfffffffc = a / 4 * 4 := by omega
    have ha : InRam cfg a := by
      rcases hmapped with h | h | h | h
      · exact h
      · exact absurd h hsyscon
      all_goals
        unfold mmioStart at h hram
        omega
    rw [heq, accessRam_congr cfg ha.1 ha.word.1.1 (show a / 4 = a / 4 * 4 / 4 by omega),
      storeRamWordUnchecked_eq] at hx
    obtain ⟨rfl, rfl⟩ := EStateM.Result.ok.inj hx
    exact .storeRam (r := s₂.reservationSet) (hs.1.trans hs.2) ⟨ha.word.1, by omega⟩ hword (Or.inl rfl)
  · exact (wp_error (storeRamWordUnchecked_ok cfg _ value _ 0 0 s₂) hx).elim

theorem store_correct {op : StoreOp} (hlabel : labels (d.opId + 192) = some label)
    (hop : memOp label = some (.store op)) :
    Correct cfg label d rs1 rs2 s (storeValue cfg d rs1 rs2 (8 * op.bytes)) := by
  have hbytes : op.bytes ∣ 4 := by cases op <;> decide
  have hlt := setupLoadAndStoreValue_storeFrame cfg rs1 d.imm (8 * op.bytes) s
  have hlen : (8 * (op.bytes : Int) = 32) ↔ label = .SW := by
    cases op <;> cases label <;> simp_all [memOp, StoreOp.bytes]
  have hmem : label ∈ [.SB, .SH, .SW, .SC_W] := by
    cases op <;> cases label <;> simp_all [memOp]
  refine wp_bind.mpr (wp_intro (fun a s₁ hsetup => ?_) fun t s₁ hsetup => ?_)
  · obtain ⟨hs, hmod, halign, hwalk⟩ := wp_ok (setupLoadAndStoreValue_correct hbytes) hsetup
    obtain ⟨-, hlt⟩ := wp_ok hlt hsetup
    simp only [storeValueAt, wp_bind, wp_ite, wp_pure]
    refine ⟨fun _ _ => .storeSyscon hs ?_, fun hsyscon => ⟨fun h32 => ?_, fun h32 => ?_⟩⟩
    · unfold storeSyscon
      split
      · exact Or.inl rfl
      · exact Or.inr rfl
    · -- the fast path
      have hsw := hlen.mp h32
      rw [h32] at hsetup
      rw [← wp_ite]
      have hop32 : op = .sw := by cases op <;> first | rfl | exact absurd h32 (by decide)
      refine storeWord_correct hop (h32 ▸ hsetup) ⟨hs, .refl s₁⟩ hlt hsyscon (fun hready => ?_)
        (by rw [if_pos hop32]; exact ⟨rfl, rfl⟩)
      obtain ⟨hword, hmapped⟩ := hready.store label hlabel
      exact ⟨hword hmem, hmapped hsw a s₁ hsetup⟩
    · have hn : op.bytes = 1 ∨ op.bytes = 2 := by
        cases op
        · exact Or.inl rfl
        · exact Or.inr rfl
        · exact absurd rfl h32
      have hframe :=
        loadRamOrMmioWord_frame cfg a { mcause := 7, mtval := effectiveAddress rs1 d.imm } s₁
      refine wp_intro (fun w s₂ hx => ?_) fun t s₂ hx => ?_
      · have hmapped : Mapped cfg s₁ a := by
          by_contra h
          rw [loadRamOrMmioWord_of_not_mapped _ hlt h] at hx
          cases hx
        have hs₂ := wp_ok hframe hx
        rw [← wp_ite]
        have hop32 : op ≠ .sw := by
          rintro rfl
          exact h32 rfl
        refine storeWord_correct hop hsetup ⟨hs, hs₂⟩ hlt hsyscon (fun hready => ⟨?_, ?_⟩)
          (by rw [if_neg hop32]; exact ⟨w, hx, rfl⟩)
        · have hword := (hready.store label hlabel).1 hmem
          exact insertValue_lt w hword.1 hmapped.nonneg hn hmod
        · exact (hs.mapped a).mp hmapped
      · obtain ⟨rfl, rfl⟩ := wp_error hframe hx
        refine ⟨hs, .denied hop halign hwalk fun hmapped => ?_⟩
        exact wp_error (loadRamOrMmioWord_of_mapped _ hlt ((hs.mapped a).mpr hmapped)) hx
  · obtain ⟨hs, h⟩ := wp_error (setupLoadAndStoreValue_correct hbytes) hsetup
    exact ⟨hs, raises_of_address hop h⟩

/-! ## Atomics -/

/-- The handler of an atomic goes on with an aligned address in RAM. -/
theorem atomic_correct (op : MemOp) {k : Int → Op End} (hop : memOp label = some op)
    (hatomic : op = .lr ∨ op = .sc ∨ ∃ o, op = .amo o)
    (hk : ∀ a s', LoadFrame s s' → InRam cfg a ∧ a % 4 = 0 →
      wp (k a) (fun e t => Ready cfg d rs1 rs2 s → Effect cfg label d rs1 rs2 s e t)
        (fun _ _ => False) s') :
    Correct cfg label d rs1 rs2 s (atomicValidateAddress cfg (misalignedCause op) rs1 >>= k) := by
  refine wp_bind.mpr (wp_mono atomicValidateAddress_correct (fun a s' h => ?_) fun t s' h => ⟨h.1, ?_⟩)
  · exact wp_mono (hk a s' h.1 h.2) (fun _ _ h => h) fun _ _ h => h.elim
  · have hva : virtualAddress op d.imm rs1 = rs1 := by
      rcases hatomic with rfl | rfl | ⟨o, rfl⟩ <;> rfl
    have hbytes : (memBytes op : Int) = 4 := by
      rcases hatomic with rfl | rfl | ⟨o, rfl⟩ <;> rfl
    rcases h.2 with ⟨hmis, rfl⟩ | ⟨halign, hwalk⟩ | ⟨halign, rfl, a, hwalk, hdenied⟩
    · have h : Raises cfg label d rs1 rs2 s
          { mcause := misalignedCause op, mtval := virtualAddress op d.imm rs1 } :=
        .misaligned hop (by rw [hva, hbytes]; exact hmis)
      rwa [hva] at h
    · exact .walk hop (by rw [hva, hbytes]; exact halign) (by rw [hva]; exact hwalk)
    · have h : Raises cfg label d rs1 rs2 s (accessFault op (virtualAddress op d.imm rs1)) :=
        .denied hop (by rw [hva, hbytes]; exact halign) (by rw [hva]; exact hwalk)
          (by rcases hatomic with rfl | rfl | ⟨o, rfl⟩ <;> exact hdenied)
      rwa [hva] at h

theorem loadRamWordUnchecked_word (cfg : PageConfig) (procs : Procs) (a : Int) :
    IsWord (loadRamWordUnchecked cfg procs a) := swapEndianness_word _

theorem lr_correct (hop : memOp label = some .lr) : Correct cfg label d rs1 rs2 s (lrW cfg d rs1) := by
  unfold lrW
  refine atomic_correct .lr hop (Or.inl rfl) fun a s' hs _ => ?_
  simp only [wp_bind, wp_get, wp_set, wp_pure]
  exact fun _ => .reserve hs (loadRamWordUnchecked_word cfg s'.procs a)

theorem sc_correct (hlabel : labels (d.opId + 192) = some label) (hop : memOp label = some .sc) :
    Correct cfg label d rs1 rs2 s (scW cfg d rs1 rs2) := by
  have hmem : label ∈ [.SB, .SH, .SW, .SC_W] := by
    cases label <;> simp_all [memOp]
  unfold scW
  refine atomic_correct .sc hop (Or.inr (Or.inl rfl)) fun a s' hs ha => ?_
  simp only [wp_bind, wp_get, wp_set, wp_ite, wp_pure]
  refine ⟨fun _ => wp_intro (fun e t hx hready => ?_) fun t s'' hx =>
    ?_, fun _ _ => .reserve hs (by decide)⟩
  · rw [storeRamWordUnchecked_eq] at hx
    obtain ⟨rfl, rfl⟩ := EStateM.Result.ok.inj hx
    exact .storeRam hs ha ((hready.store label hlabel).1 hmem) (Or.inr ⟨rfl, by decide⟩)
  · rw [storeRamWordUnchecked_eq] at hx
    cases hx

theorem amo_correct {op : AmoOp} (hop : memOp label = some (.amo op)) :
    Correct cfg label d rs1 rs2 s (amo cfg d rs1 rs2) := by
  unfold amo
  refine atomic_correct (.amo op) hop (Or.inr (Or.inr ⟨op, rfl⟩)) fun a s' hs ha => ?_
  simp only [wp_bind, wp_get]
  refine wp_intro (fun e t hx _ => ?_) fun t s'' hx => ?_
  · rw [storeRamWordUnchecked_eq] at hx
    obtain ⟨rfl, rfl⟩ := EStateM.Result.ok.inj hx
    exact .storeRam (r := s'.reservationSet) hs ha (isWord_opAnd _ (by decide))
      (Or.inr ⟨rfl, loadRamWordUnchecked_word cfg s'.procs a⟩)
  · rw [storeRamWordUnchecked_eq] at hx
    cases hx

/-! ## SYSTEM -/

theorem priv_checked (imm mode : Int) :
    match priv imm mode with
    | .WFI => True
    | .ILLEGAL_OP => imm ≠ 0 ∧ imm ≠ 1
    | .ECALL => imm = 0
    | .EBREAK => imm = 1
    | .SRET | .SFENCE_VMA => 1 ≤ mode ∧ imm ≠ 0 ∧ imm ≠ 1
    | .MRET => 3 ≤ mode := by
  unfold priv
  split_ifs <;> first | trivial | assumption | (dsimp only; omega)

theorem priv_correct : Correct cfg .PRIV d rs1 rs2 s (privHandler cfg d.imm) := by
  have hchecked := priv_checked d.imm s.privilegeMode
  have hillegal (himm : d.imm ≠ 0 ∧ d.imm ≠ 1) : LoadFrame s s ∧
      Raises cfg .PRIV d rs1 rs2 s illegalOp :=
    ⟨.refl s, .illegal (by decide) fun _ => himm⟩
  simp only [Correct, privHandler, wp_bind, wp_get]
  cases hp : priv d.imm s.privilegeMode with
  | ILLEGAL_OP =>
      rw [hp] at hchecked
      exact hillegal hchecked
  | ECALL =>
      rw [hp] at hchecked
      exact ⟨.refl s, .ecall rfl hchecked⟩
  | EBREAK =>
      rw [hp] at hchecked
      exact ⟨.refl s, .ebreak rfl hchecked⟩
  | WFI =>
      refine fun _ => .pass ?_
      unfold wfi
      split
      · exact Or.inl rfl
      · exact Or.inr rfl
  | SRET =>
      rw [hp] at hchecked
      simp only [sret, wp_bind, wp_get, wp_ite, wp_throw, wp_set, wp_pure]
      exact ⟨fun _ => hillegal hchecked.2, fun htsr _ => .sret hchecked.1 htsr⟩
  | SFENCE_VMA =>
      rw [hp] at hchecked
      simp only [sfenceVma, wp_bind, wp_get, wp_ite, wp_throw, wp_set, wp_pure]
      exact ⟨fun _ => hillegal hchecked.2, fun htvm _ => .sfence hchecked.1 htvm⟩
  | MRET =>
      rw [hp] at hchecked
      exact fun _ => .mret hchecked

theorem mlogsys_correct : Correct cfg .MLOGSYS d rs1 rs2 s (mlogsys cfg rs1) := by
  simp only [Correct, mlogsys, wp_bind, wp_get, wp_ite, wp_throw, wp_set, wp_pure]
  exact ⟨fun _ => ⟨.refl s, .illegal (by decide) fun h => by cases h⟩, fun hmode _ =>
    .mlogsys (not_lt.mp hmode)⟩

theorem csrWrite_error (cfg : PageConfig) (read : CsrRead) (write : CsrWrite) (csrVar : Value)
    (result rdId rd : Int) (s : Hart) :
    wp (csrWrite cfg read csrVar result rdId rd write) (fun _ _ => True)
      (fun t s' => t = illegalOp ∧ s' = s) s := by
  cases write <;>
    simp only [csrWrite, wp_bind, wp_ite, wp_modify, wp_throw, wp_pure, implies_true, and_self]

theorem modifyCsr_error (cfg : PageConfig) (d : Fetched) (op : ModifyCsrOp) (x : Int) (s : Hart) :
    wp (modifyCsr cfg d op x) (fun _ _ => True) (fun t s' => t = illegalOp ∧ s' = s) s := by
  simp only [modifyCsr, wp_bind, wp_get, wp_ite, wp_throw, implies_true, true_and]
  refine fun _ => ?_
  split
  · trivial
  · refine wp_bind.mpr (wp_mono (csrRead_state cfg _ _ _ s) (fun rd s' hs => ?_) fun _ _ h => h)
    subst hs
    rw [wp_ite]
    refine ⟨fun _ => trivial, fun _ => ?_⟩
    split
    · trivial
    · exact csrWrite_error cfg _ _ _ _ _ _ s'

theorem csrInstructions_immLimit (hlabel : labels (d.opId + 192) = some label)
    (h : label ∈ csrInstructions) :
    immLimit d.opId = 4096 := by
  obtain ⟨h0, h1⟩ := labels_range hlabel
  have htable : ∀ i : Fin 256,
      ((labels (i : Nat)).all fun l => l ∉ csrInstructions || isSystem ((i : Nat) - 192)) := by
    decide +kernel
  have hi := htable ⟨(d.opId + 192).toNat, by omega⟩
  simp only [Int.toNat_of_nonneg h0, hlabel, Option.all_some, h, not_true_eq_false, decide_false,
    Bool.false_or, add_sub_cancel_right] at hi
  rw [immLimit, if_pos hi]

theorem csrOperand_mem {op : ModifyCsrOp} {x : Int} (hop : csrOperand d rs1 label = some (op, x)) :
    label ∈ csrInstructions := by
  cases label <;> simp_all [csrOperand, csrInstructions]

theorem csr_correct {op : ModifyCsrOp} {x : Int} (hlabel : labels (d.opId + 192) = some label)
    (hop : csrOperand d rs1 label = some (op, x)) :
    Correct cfg label d rs1 rs2 s (modifyCsr cfg d op x) := by
  have hcsr := csrOperand_mem hop
  have hsystem := csrInstructions_immLimit hlabel hcsr
  refine wp_intro (fun e s' hx hready => ?_) fun t s' hx => ?_
  · have himm : 0 ≤ d.imm ∧ d.imm < 4096 := ⟨hready.valid.imm.1, hsystem ▸ hready.valid.immLimit⟩
    obtain ⟨hmode, rd, hread, h⟩ := modifyCsr_ok himm hready.csrLabels hx
    split at h
    · rename_i hreads
      obtain ⟨rfl, rfl⟩ := h
      exact .csrRead hop himm hmode hread hreads
    · rename_i hwrites
      obtain ⟨hlegal, rfl, rfl⟩ := csrEntry_csrWrite_ok h
      exact .csrWrite hop himm hmode hread hwrites hlegal
  · obtain ⟨rfl, rfl⟩ := wp_error (modifyCsr_error cfg d op x s) hx
    exact ⟨.refl s', .illegal (List.mem_append_right _ hcsr) fun hl => absurd (hl ▸ hop) nofun⟩

/-! ## The dispatch -/

/-- The labels of the decoders, which no op_id leads to. -/
def decoderLabels : List Label :=
  [.decode_LOAD, .decode_custom_0, .decode_MISC_MEM, .decode_OP_IMM, .decode_AUIPC,
    .decode_STORE, .decode_AMO,
    .decode_OP, .decode_LUI, .decode_BRANCH, .decode_JALR, .decode_JAL, .decode_SYSTEM,
    .decode_illegal_instruction]

theorem Fetched.Valid.labels (h : d.Valid) : ∃ label, Cpu.labels (d.opId + 192) = some label ∧
    label ∉ decoderLabels := by
  have htable : ∀ i : Fin 128, (Cpu.labels ((i : Nat) + 128)).any fun l => l ∉ decoderLabels := by
    decide +kernel
  have hge := h.opId_ge
  have hle := h.opId_le
  have hi := htable ⟨(d.opId + 64).toNat, by omega⟩
  dsimp only at hi
  rw [Int.toNat_of_nonneg (by omega), show d.opId + 64 + 128 = d.opId + 192 by ring,
    Option.any_eq_true] at hi
  obtain ⟨label, hlabel, hnot⟩ := hi
  exact ⟨label, hlabel, of_decide_eq_true hnot⟩

theorem handler_alu {rd : Int} (h : aluRd label s.pc rs1 rs2 d.imm = some rd) :
    handler cfg d rs1 rs2 label s = .ok (.endInstructionWithRd d.rdId rd) s := by
  have heq : handler cfg d rs1 rs2 label = (do
      (aluRd label (← get).pc rs1 rs2 d.imm).elim (return .lost) fun rd =>
        return .endInstructionWithRd d.rdId rd) := by
    cases label <;> first | rfl | cases h
  rw [heq, bind_get, h]
  rfl

theorem alu_correct {rd : Int} (h : aluRd label s.pc rs1 rs2 d.imm = some rd) :
    Correct cfg label d rs1 rs2 s (handler cfg d rs1 rs2 label) := by
  rw [Correct, wp, handler_alu h]
  exact fun _ => .compute h

theorem handler_branch {taken : Bool} (h : branchTaken label rs1 rs2 = some taken) :
    handler cfg d rs1 rs2 label = branch taken d.imm := by
  have heq : (branchTaken label rs1 rs2).elim True fun taken =>
      handler cfg d rs1 rs2 label = branch taken d.imm := by
    cases label <;> first | rfl | trivial
  rw [h] at heq
  exact heq

theorem handler_correct (hlabel : labels (d.opId + 192) = some label) :
    Correct cfg label d rs1 rs2 s (handler cfg d rs1 rs2 label) := by
  cases hop : memOp label with
  | some op =>
      rw [handler_eq_memHandler hop]
      cases op with
      | load op => exact load_correct hop
      | store op => exact store_correct hlabel hop
      | lr => exact lr_correct hop
      | sc => exact sc_correct hlabel hop
      | amo op => exact amo_correct hop
  | none =>
      have hdecoder (h : label ∈ decoderLabels) : ¬Ready cfg d rs1 rs2 s := fun hready => by
        obtain ⟨label', hlabel', hnot⟩ := hready.valid.labels
        cases hlabel.symm.trans hlabel'
        exact hnot h
      cases label
      case JAL => exact jal_correct
      case JALR => exact jalr_correct
      case PRIV => exact priv_correct
      case MLOGSYS => exact mlogsys_correct
      case ILLEGAL_OP => exact ⟨.refl s, .illegal (by decide) nofun⟩
      case FENCE =>
        refine fun _ => .pass ?_
        unfold fence
        split
        · exact Or.inl rfl
        · exact Or.inr rfl
      case BEQ | BNE | BLT | BLTU | BGE | BGEU => exact branch_correct rfl
      case CSRRW | CSRRS | CSRRC | CSRRWI | CSRRSI | CSRRCI => exact csr_correct hlabel rfl
      all_goals first
        | exact alu_correct rfl
        | exact fun hready => absurd hready (hdecoder (by decide))
        | cases hop

theorem execute_effect {e : End} {s' : Hart} (h : Ready cfg d rs1 rs2 s)
    (hx : execute cfg d rs1 rs2 s = .ok e s') :
    ∃ label, labels (d.opId + 192) = some label ∧ Effect cfg label d rs1 rs2 s e s' := by
  obtain ⟨label, hlabel, -⟩ := h.valid.labels
  unfold execute at hx
  rw [hlabel] at hx
  exact ⟨label, hlabel, wp_ok (handler_correct hlabel) hx h⟩

/-- An instruction that traps raises an exception before it changes more than a load does. -/
theorem execute_raises {t : Trap} {s' : Hart} (hx : execute cfg d rs1 rs2 s = .error t s') :
    ∃ label, labels (d.opId + 192) = some label ∧ LoadFrame s s' ∧ Raises cfg label d rs1 rs2 s t := by
  unfold execute at hx
  cases hlabel : labels (d.opId + 192) with
  | none =>
      rw [hlabel] at hx
      cases hx
  | some label =>
      rw [hlabel] at hx
      have h := wp_error (handler_correct hlabel) hx
      exact ⟨label, rfl, h⟩

end Mlogv32.Cpu
