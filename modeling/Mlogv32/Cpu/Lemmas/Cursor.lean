import Mlogv32.Cpu.Theorems.Icache

/-!
# The cursor of the fetch

The worker translates `pc` only if it has no cursor. `Tracks` says what a cursor is then good for:
it is the slot of the address of `pc` in the page that the last translation found.
-/

namespace Mlogv32.Cpu
open Mlog Logic Isa

variable {cfg : Config} {s s' : Hart}

/-! ## The last translation -/

/-- What a fetch without a cursor found: the physical page of `pc`, in the mode and with the satp
that it had. -/
structure Resolved where
  page : Int
  virtualPage : Int
  privilegeMode : Int
  satp : Int

/-- The physical address of `pc` if the resolved page is still the right one. -/
def Resolved.address (r : Resolved) (pc : Int) : Int := 4096 * r.page + pc % 4096

/-- The page that the next step resolves, if it is a fetch without a cursor. -/
def Machine.resolved (cfg : Config) (m : Machine) : Option Resolved :=
  match m.point with
  | .main =>
      if m.hart.icacheVar.isNull then
        match fetchAddress cfg (fetchHart m.hart) with
        | .ok a _ => some
            { page := a / 4096
              virtualPage := opAnd m.hart.pc 0xfffff000
              privilegeMode := m.hart.privilegeMode
              satp := m.hart.csr cfg satpCsr }
        | .error _ _ => none
      else none
  | _ => none

/-! ## The invariant -/

/-- The cursor is the slot of the address of `pc` in the resolved page, all of whose words are held. -/
structure Tracks (cfg : Config) (r : Resolved) (pc : Int) (s : Hart) : Prop where
  slot : icacheSlot cfg (r.address pc) = (s.icacheRam, s.icacheVar)
  held : ∀ a, a / 4096 = r.page → a % 4 = 0 → SlotWord cfg a ∧ Held cfg s.procs a
  virtualPage : opAnd pc 0xfffff000 = r.virtualPage
  privilegeMode : s.privilegeMode = r.privilegeMode
  satp : s.csr cfg satpCsr = r.satp

/-- There is no cursor, or it tracks `pc`. -/
def CursorTracks (cfg : Config) (r : Option Resolved) (pc : Int) (s : Hart) : Prop :=
  s.icacheVar = .null ∨ ∃ x, r = some x ∧ Tracks cfg x pc s

/-- The mode and satp are as before. -/
structure SameSpace (cfg : Config) (s s' : Hart) : Prop where
  privilegeMode : s'.privilegeMode = s.privilegeMode
  satp : s'.csr cfg satpCsr = s.csr cfg satpCsr

theorem SystemFrame.sameSpace (h : SystemFrame cfg s s') : SameSpace cfg s s' :=
  ⟨h.privilegeMode, h.csr satpCsr (by decide) (by decide)⟩

variable {r : Resolved} {o : Option Resolved} {pc : Int}

/-- A change that keeps the cursor. -/
theorem Tracks.frame (h : Tracks cfg r pc s)
    (hcursor : (s'.icacheRam, s'.icacheVar) = (s.icacheRam, s.icacheVar))
    (hkeeps : KeepsIcache cfg s s') (hspace : SameSpace cfg s s') : Tracks cfg r pc s' where
  slot := h.slot.trans hcursor.symm
  held a ha halign :=
    ⟨(h.held a ha halign).1, hkeeps.held a (h.held a ha halign).1 (h.held a ha halign).2⟩
  virtualPage := h.virtualPage
  privilegeMode := hspace.privilegeMode.trans h.privilegeMode
  satp := hspace.satp.trans h.satp

theorem CursorTracks.frame (h : CursorTracks cfg o pc s)
    (hcursor : (s'.icacheRam, s'.icacheVar) = (s.icacheRam, s.icacheVar)) (hkeeps : KeepsIcache cfg s s')
    (hspace : SameSpace cfg s s') : CursorTracks cfg o pc s' := by
  rcases h with hnull | ⟨x, hx, htracks⟩
  · exact Or.inl ((congrArg Prod.snd hcursor).trans hnull)
  · exact Or.inr ⟨x, hx, htracks.frame hcursor hkeeps hspace⟩

/-! ## Moving in the page -/

/-- In a page the slots lie like the addresses. -/
theorem slotCell_page {a b : Int} (h : a / 4096 = b / 4096) :
    slotCell cfg b = slotCell cfg a + (b - a) := by
  have hlow : a < ramStart ↔ b < ramStart := by
    unfold ramStart
    omega
  unfold slotCell
  rw [if_congr hlow rfl rfl]
  ring

theorem Resolved.address_page (r : Resolved) (pc : Int) :
    r.address pc / 4096 = r.page ∧ r.address pc % 4096 = pc % 4096 := by
  unfold Resolved.address
  omega

/-- The page of an address, as `unconditional_jump` compares it. -/
theorem opAnd_page (a : Int) : opAnd a 0xfffff000 = a / 4096 % 2 ^ 20 * 4096 := by
  have h := opAnd_mask (b := 0xfffff000) a 12 20 (by decide) (by decide)
  rw [h]
  norm_num

theorem Tracks.word (h : Tracks cfg r pc s) (hpc : pc % 4 = 0) :
    SlotWord cfg (r.address pc) ∧ Held cfg s.procs (r.address pc) := by
  obtain ⟨hpage, hoff⟩ := r.address_page pc
  exact h.held _ hpage (by omega)

/-- The cursor after the fetch of a word of the page is dropped at the end of the page, and else
tracks the next word. -/
theorem Tracks.successor {i : Nat} (h : Tracks cfg r pc s) (hpc : pc % 4 = 0)
    (hvar : s.icacheVar = .var i) (imm : Int) :
    let t := { fetchHart s with imm := imm, icacheVar := Cpu.successor i }
    Cpu.successor i = .null ∨
    (Tracks cfg r (pc + 4) t ∧ opAnd pc 0xfffff000 = opAnd (pc + 4) 0xfffff000) := by
  intro t
  obtain ⟨hword, -⟩ := h.word hpc
  obtain ⟨hpage, hoff⟩ := r.address_page pc
  have hcell := hword.cell
  have hmod := icacheOffset_emod cfg (r.address pc)
  change slotCell cfg (r.address pc) % 4096 = r.address pc % 4096 at hmod
  have hraw : accessRamRaw cfg (slotCell cfg (r.address pc)) = (s.icacheRam, .var i) :=
    h.slot.trans (by rw [hvar])
  rcases successor_slot hcell (by omega) hraw with ⟨hnull, -⟩ | ⟨hend, -, hnext⟩
  · exact Or.inl hnull
  · have haddress : r.address (pc + 4) = r.address pc + 4 := by
      unfold Resolved.address
      omega
    have hvirtual : opAnd pc 0xfffff000 = opAnd (pc + 4) 0xfffff000 := by
      rw [opAnd_page, opAnd_page, show (pc + 4) / 4096 = pc / 4096 by omega]
    refine Or.inr ⟨⟨?_, h.held, hvirtual.symm.trans h.virtualPage, h.privilegeMode, h.satp⟩, hvirtual⟩
    have hcell' : slotCell cfg (r.address (pc + 4)) = slotCell cfg (r.address pc) + 4 := by
      rw [slotCell_page (a := r.address pc) (by omega), haddress]
      ring
    change accessRamRaw cfg (slotCell cfg (r.address (pc + 4))) = (s.icacheRam, Cpu.successor i)
    rw [hcell', hnext]

theorem Tracks.jump {i : Nat} {nextPc : Int} (h : Tracks cfg r pc s) (hpc : pc % 4 = 0)
    (hvar : s.icacheVar = .var i) (hpage : opAnd pc 0xfffff000 = opAnd nextPc 0xfffff000) :
    Tracks cfg r nextPc { s with nextPc := nextPc, icacheVar := jumpCursor i nextPc } := by
  obtain ⟨hword, -⟩ := h.word hpc
  obtain ⟨hbase, hoff⟩ := r.address_page pc
  obtain ⟨hbase', hoff'⟩ := r.address_page nextPc
  have hmod := icacheOffset_emod cfg (r.address pc)
  change slotCell cfg (r.address pc) % 4096 = r.address pc % 4096 at hmod
  have hraw : accessRamRaw cfg (slotCell cfg (r.address pc)) = (s.icacheRam, .var i) :=
    h.slot.trans (by rw [hvar])
  obtain ⟨-, hjump⟩ := @jumpCursor_slot _ _ nextPc _ _ hword.cell hraw
  refine ⟨?_, h.held, hpage.symm.trans h.virtualPage, h.privilegeMode, h.satp⟩
  have hcell : slotCell cfg (r.address nextPc) = slotCell cfg (r.address pc) / 4096 *
      4096 + nextPc % 4096 := by
    rw [slotCell_page (a := r.address pc) (by omega)]
    omega
  change accessRamRaw cfg (slotCell cfg (r.address nextPc)) = (s.icacheRam, jumpCursor i nextPc)
  rw [hcell, hjump]

/-! ## Instructions -/

/-- What an instruction does with the cursor: it drops it, keeps it, or moves it with a jump inside
the page. -/
inductive CursorEffect (cfg : Config) (s s' : Hart) : Prop
  | drop (h : s'.icacheVar = .null)
  | keep (hcursor : (s'.icacheRam, s'.icacheVar) = (s.icacheRam, s.icacheVar))
      (hnext : s'.nextPc = s.nextPc)
      (hspace : SameSpace cfg s s')
  | jump {i : Nat} {nextPc : Int} (hvar : s.icacheVar = .var i)
      (hpage : opAnd s.pc 0xfffff000 = opAnd nextPc 0xfffff000)
      (h : s' = { s with nextPc := nextPc, icacheVar := jumpCursor i nextPc })

theorem LoadFrame.cursorEffect (h : LoadFrame s s') : CursorEffect cfg s s' := by
  have hspace : SameSpace cfg s s' := h.system.sameSpace
  obtain ⟨_, _, _, rfl, _⟩ := h
  exact .keep rfl rfl hspace

/-- Only a write to satp changes it, and drops the cursor. -/
theorem csrWriteHart_cursorEffect {n : Nat} (result : Int) :
    CursorEffect cfg s (csrWriteHart cfg (.var n) result s (csrEntry n).write) := by
  have hentry : (csrEntry satpCsr).write = .satp := by decide
  have hne {w : CsrWrite} (hw : (csrEntry n).write = w) (hsatp : w ≠ .satp) : satpCsr ≠ n := by
    rintro rfl
    exact hsatp (hw.symm.trans hentry)
  cases hw : (csrEntry n).write with
  | satp => exact .drop rfl
  | csrs => exact .keep rfl rfl ⟨rfl, writeCsr_csr s (hne hw (by decide)) result⟩
  | minstreth =>
      exact .keep rfl rfl ⟨rfl, writeCsr_csr { s with csrMinstret := s.csrMinstret - 1 }
        (hne hw (by decide)) result⟩
  | _ => exact .keep rfl rfl ⟨rfl, rfl⟩

theorem Effect.cursorEffect {label : Label} {d : Fetched} {rs1 rs2 : Int} {e : End}
    (h : Effect cfg label d rs1 rs2 s e s') (hs : Sound cfg s) : CursorEffect cfg s s' := by
  cases h with
  | compute => exact .keep rfl rfl ⟨rfl, rfl⟩
  | pass => exact .keep rfl rfl ⟨rfl, rfl⟩
  | jump _ _ hv =>
      rcases hv with rfl | ⟨i, hi, hpage, rfl⟩
      · exact .drop rfl
      · exact .jump hi hpage rfl
  | load h => exact h.cursorEffect
  | reserve h =>
      obtain ⟨_, _, _, rfl, _⟩ := h
      exact .keep rfl rfl ⟨rfl, rfl⟩
  | @storeRam s₁ r address value _ _ h ha =>
      have hspace := (h.system.trans (SystemFrame.of_csrs rfl rfl rfl rfl rfl rfl rfl :
        SystemFrame cfg s₁ { s₁ with reservationSet := r })).trans (storedRam_system _ ha.1 value)
      obtain ⟨_, _, _, rfl, _⟩ := h
      refine .keep ?_ ?_ hspace.sameSpace
      · unfold storedRam
        split <;> rfl
      · unfold storedRam
        split <;> rfl
  | storeSyscon h => exact h.cursorEffect
  | storeMmio _ _ h _ _ hx =>
      obtain ⟨_, _, _, rfl, _⟩ := h.1.trans h.2
      rcases storeMmio_frame hx with ⟨-, _, _, rfl⟩ | ⟨-, _, _, _, _, rfl, -⟩
      · exact .keep rfl rfl ⟨rfl, rfl⟩
      · exact .keep rfl rfl ⟨rfl, rfl⟩
  | sret => exact .drop rfl
  | mret => exact .drop rfl
  | sfence => exact .drop rfl
  | csrRead => exact .keep rfl rfl ⟨rfl, rfl⟩
  | csrWrite => exact csrWriteHart_cursorEffect _
  | mlogsys =>
      obtain ⟨imm, procs, heq, hprocs⟩ := mlogsysHart_frame hs.incr rs1
      rw [heq]
      exact .keep rfl rfl ⟨rfl, congrArg (fun csrs => (csrs satpCsr).toNum) hprocs⟩

/-- At the dispatch the cursor is that of the next instruction, in the page of this one. -/
def AtDispatch (cfg : Config) (o : Option Resolved) (s : Hart) : Prop :=
  CursorTracks cfg o s.nextPc s ∧
  (s.icacheVar = .null ∨ opAnd s.pc 0xfffff000 = opAnd s.nextPc 0xfffff000)

theorem CursorEffect.tracks (h : CursorEffect cfg s s') (hkeeps : KeepsIcache cfg s s')
    (hat : AtDispatch cfg o s) (hnext : s.nextPc % 4 = 0) : CursorTracks cfg o s'.nextPc s' := by
  obtain ⟨htracks, hpage⟩ := hat
  cases h with
  | drop h => exact Or.inl h
  | keep hcursor hnext' hspace =>
      rw [hnext']
      exact htracks.frame hcursor hkeeps hspace
  | @jump i nextPc hvar hpage' h =>
      subst h
      rcases htracks with hnull | ⟨x, hx, htracks⟩
      · rw [hvar] at hnull
        cases hnull
      · have hsame : opAnd s.pc 0xfffff000 = opAnd s.nextPc 0xfffff000 := by
          refine hpage.resolve_left fun hnull => ?_
          rw [hvar] at hnull
          cases hnull
        exact Or.inr ⟨x, hx, htracks.jump hnext hvar (hsame.symm.trans hpage')⟩

/-! ## Fetches -/

/-- What is covered is covered in whole pages. -/
theorem Coherent.page (h : Coherent cfg s) (hs : Sound cfg s) {a b : Int} (ha : Cached cfg s.etext a)
    (hpage : b / 4096 = a / 4096) (halign : b % 4 = 0) : SlotWord cfg b ∧ Held cfg s.procs b := by
  have hetext := h.aligned
  have hend : cfg.icacheEnd % 4096 = 0 := by
    have := cfg.icacheSize_aligned
    have := cfg.programRomSize_aligned
    have := cfg.ramSize_aligned
    unfold PageConfig.icacheEnd PageConfig.ramEnd ramStart
    split <;> omega
  have hb : Cached cfg s.etext b := by
    unfold Cached ramStart at ha ⊢
    omega
  have hword : SlotWord cfg b := ⟨hb.imp_left fun h => ⟨h.1, h.2.trans_le hs.etext⟩, halign⟩
  exact ⟨hword, h.held b hword hb⟩

theorem fetch_above {a : Int} {s₁ : Hart} (hv : s.icacheVar = .null)
    (ha : fetchAddress cfg (fetchHart s) = .ok a s₁) (hcached : ¬Cached cfg s.etext a)
    (hend : cfg.ramEnd ≤ a) : ∃ t, fetch cfg s = .error t s₁ := by
  have hetext : s₁.etext = s.etext := (wp_ok (fetchAddress_frame cfg (fetchHart s)) ha).1.etext
  have hstart : ramStart ≤ cfg.ramEnd := by
    unfold PageConfig.ramEnd
    omega
  have hpos : (0 : Int) ≤ ramStart := by decide
  have hcases := not_or.mp hcached
  have hslow : fetch cfg s = mainSlowInstructionFetch cfg a s₁ := by
    have hnull : (!(fetchHart s).icacheVar.isNull) = false := by
      rw [show (fetchHart s).icacheVar = .null from hv]
      rfl
    change (if (!(fetchHart s).icacheVar.isNull) = true then mainReadIcache cfg else _) (fetchHart s) = _
    rw [hnull, if_neg Bool.false_ne_true, bind_ok ha, bind_get, hetext, if_neg fun hlt =>
      hcases.1 ⟨by omega, hlt⟩, if_neg (by omega), if_neg fun hlt => hcases.2 ⟨by omega, hlt⟩]
  rw [hslow, mainSlowInstructionFetch, bind_get]
  rw [if_pos hend]
  exact ⟨_, rfl⟩

theorem loadWord_stored {a w : Int} {trap : Trap} (hend : a < cfg.ramEnd)
    (h : loadWord cfg a trap s = .ok w s') :
    w = storedWord cfg s.procs a := by
  have hmmio : ¬a ≥ mmioStart := by
    have := cfg.ramSize_le
    unfold PageConfig.ramEnd ramStart at hend
    unfold mmioStart
    omega
  unfold storedWord
  rw [loadWord] at h
  split at h
  · rename_i hrom
    rw [if_pos hrom]
    exact (EStateM.Result.ok.inj h).1.symm
  · rename_i hrom
    rw [if_neg hrom]
    rw [loadRamOrMmioWord, if_neg hmmio] at h
    split at h
    · cases h
    · rw [if_neg (not_le.mpr hend), bind_get] at h
      exact (EStateM.Result.ok.inj h).1.symm

theorem Fetches.registers {d : Fetched} (h : Fetches cfg s d s') : s'.registers = s.registers := by
  have hload {a : Int} {s₁ : Hart} (ha : fetchAddress cfg (fetchHart s) = .ok a s₁) :
      s₁.registers = s.registers :=
    (wp_ok (fetchAddress_frame cfg (fetchHart s)) ha).1.registers
  cases h with
  | cursor => rfl
  | @icache _ _ _ s₁ _ ha => exact (hload ha : s₁.registers = s.registers)
  | @slow _ _ s₁ _ ha => exact (hload ha : s₁.registers = s.registers)

/-- A resolved page is that of `pc`, in the mode and with the satp of the hart. -/
structure Resolved.Current (cfg : Config) (r : Resolved) (s : Hart) : Prop where
  virtualPage : opAnd s.pc 0xfffff000 = r.virtualPage
  privilegeMode : s.privilegeMode = r.privilegeMode
  satp : s.csr cfg satpCsr = r.satp

/-- A fetch, with a cursor or without, takes the instruction that is at the address of `pc`. -/
theorem fetch_fromMemory {m : Machine} (hsound : SoundMachine cfg m) (hcoherent : Coherent cfg m.hart)
    (htracks : CursorTracks cfg o m.hart.pc m.hart) (hpoint : m.point = .main) {d : Fetched}
    (hx : fetch cfg m.hart = .ok (some d) s') :
    AtDispatch cfg ((m.resolved cfg).or o) s' ∧
      ∃ x, (m.resolved cfg).or o = some x ∧ x.Current cfg m.hart ∧
        FromMemory cfg m.hart.procs (x.address m.hart.pc) d := by
  have hs := hsound.hart
  have hpc := hs.pc.2
  obtain ⟨d', hd, hfetches⟩ := wp_ok (fetch_correct cfg m.hart) hx hs
  obtain rfl : d = d' := Option.some.inj hd
  have hresolved (hv : m.hart.icacheVar = .null) {a : Int} {s₁ : Hart}
      (ha : fetchAddress cfg (fetchHart m.hart) = .ok a s₁) :
      m.resolved cfg = some
        { page := a / 4096
          virtualPage := opAnd m.hart.pc 0xfffff000
          privilegeMode := m.hart.privilegeMode
          satp := m.hart.csr cfg satpCsr } := by
    unfold Machine.resolved
    rw [hpoint]
    dsimp only
    rw [hv, ha]
    rfl
  cases hfetches with
  | @cursor i hv =>
      have hnone : m.resolved cfg = none := by
        unfold Machine.resolved
        rw [hpoint]
        dsimp only
        rw [hv]
        rfl
      obtain ⟨x, hx, htracks⟩ : ∃ x, o = some x ∧ Tracks cfg x m.hart.pc m.hart := by
        refine htracks.resolve_left fun hnull => ?_
        rw [hv] at hnull
        cases hnull
      rw [hnone, Option.none_or]
      refine ⟨?_, x, hx, ⟨htracks.virtualPage, htracks.privilegeMode, htracks.satp⟩, ?_⟩
      · rcases htracks.successor hpc hv _ with hnull | ⟨htracks', hpage⟩
        · exact ⟨Or.inl hnull, Or.inl hnull⟩
        · exact ⟨Or.inr ⟨x, hx, htracks'⟩, Or.inr hpage⟩
      · have hslot : slotValue cfg m.hart.procs (x.address m.hart.pc) =
            m.hart.procs m.hart.icacheRam i := by
          have hraw : accessRamRaw cfg (slotCell cfg (x.address m.hart.pc)) =
              (m.hart.icacheRam, .var i) :=
            htracks.slot.trans (by rw [hv])
          rw [slotValue, cell, hraw]
          rfl
        have hfrom := (htracks.word hpc).2.fromMemory
        rw [hslot] at hfrom
        exact hfrom
  | @icache a ram i s₁ hv ha hcached hslot =>
      obtain ⟨hload, -, hoff⟩ := wp_ok (fetchAddress_frame cfg (fetchHart m.hart)) ha
      change a % 4096 = m.hart.pc % 4096 at hoff
      have haddress : 4096 * (a / 4096) + m.hart.pc % 4096 = a := by omega
      rw [hresolved hv ha, Option.some_or]
      generalize hr : Resolved.mk (a / 4096) (opAnd m.hart.pc 0xfffff000) m.hart.privilegeMode
        (m.hart.csr cfg satpCsr) = x
      have hxa : x.address m.hart.pc = a := by
        rw [← hr]
        exact haddress
      obtain ⟨_, _, _, rfl, _⟩ := hload
      have htracks₀ : Tracks cfg x m.hart.pc { m.hart with icacheRam := ram, icacheVar := .var i } := by
        refine ⟨by rw [hxa]; exact hslot, fun b hb halign =>
          ?_, by rw [← hr], by rw [← hr], by rw [← hr]; rfl⟩
        rw [← hr] at hb
        exact hcoherent.page hs hcached hb halign
      refine ⟨?_, x, rfl, ⟨by rw [← hr], by rw [← hr], by rw [← hr]⟩, ?_⟩
      · rcases htracks₀.successor hpc rfl (readIcache (m.hart.procs ram i).toNum).imm with
          hnull | ⟨htracks', hpage⟩
        · exact ⟨Or.inl hnull, Or.inl hnull⟩
        · exact ⟨Or.inr ⟨x, rfl, htracks'.frame rfl (.of_procs rfl rfl) ⟨rfl, rfl⟩⟩, Or.inr hpage⟩
      · have hvalue : slotValue cfg m.hart.procs a = m.hart.procs ram i := by
          have hraw : accessRamRaw cfg (slotCell cfg a) = (ram, .var i) := hslot
          rw [slotValue, cell, hraw]
          rfl
        have hfrom := (hcoherent.page hs hcached rfl (by omega)).2.fromMemory
        rw [hvalue] at hfrom
        rw [hxa]
        exact hfrom
  | @slow a w s₁ hv ha hcached hw =>
      obtain ⟨hload, -, hoff⟩ := wp_ok (fetchAddress_frame cfg (fetchHart m.hart)) ha
      change a % 4096 = m.hart.pc % 4096 at hoff
      have haddress : 4096 * (a / 4096) + m.hart.pc % 4096 = a := by omega
      have hend : a < cfg.ramEnd := by
        by_contra hend
        obtain ⟨t, herror⟩ := fetch_above hv ha hcached (not_lt.mp hend)
        rw [herror] at hx
        cases hx
      have hstored : w = storedWord cfg m.hart.procs a := by
        rw [loadWord_stored hend hw.2, hload.procs]
        rfl
      have hnull : s₁.icacheVar = .null := by
        obtain ⟨_, _, _, rfl, _⟩ := hload
        exact hv
      rw [hresolved hv ha, Option.some_or]
      refine ⟨⟨Or.inl hnull, Or.inl hnull⟩, _, rfl, ⟨rfl, rfl, rfl⟩, ?_⟩
      change FromMemory cfg m.hart.procs (4096 * (a / 4096) + m.hart.pc % 4096) _
      rw [haddress, hstored]
      exact slowFetch_fromMemory ..

end Mlogv32.Cpu
