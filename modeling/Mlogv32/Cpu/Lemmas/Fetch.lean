import Mlogv32.Cpu.Lemmas.Sound

/-!
# Instruction fetch

`Fetches` says which instruction `main` fetches and where it leaves the cursor, and `FetchRaises`
which exceptions it raises.
-/

namespace Mlogv32.Cpu
open Mlog Logic Isa

variable {cfg : PageConfig} {s : Hart}

/-- The hart after the first instruction of `main`. -/
def fetchHart (s : Hart) : Hart := { s with nextPc := s.pc + 4 }

/-- An address that has a slot: ROM below `etext`, or the part of RAM that the icache covers. -/
def Cached (cfg : PageConfig) (etext a : Int) : Prop :=
  (0 ≤ a ∧ a < etext) ∨ (ramStart ≤ a ∧ a < cfg.icacheEnd)

inductive Fetches (cfg : PageConfig) (s : Hart) : Fetched → Hart → Prop
  /-- The slot of the cursor. -/
  | cursor {i : Nat} (hv : s.icacheVar = .var i) :
      Fetches cfg s (readIcache (s.procs s.icacheRam i).toNum)
        { fetchHart s with
          imm := (readIcache (s.procs s.icacheRam i).toNum).imm
          icacheVar := successor i }
  /-- The slot of a physical address. -/
  | icache {a : Int} {ram : Tile} {i : Nat} {s₁ : Hart} (hv : s.icacheVar = .null)
      (ha : fetchAddress cfg (fetchHart s) = .ok a s₁) (hcached : Cached cfg s.etext a)
      (hslot : icacheSlot cfg a = (ram, .var i)) :
      Fetches cfg s (readIcache (s.procs ram i).toNum)
        { s₁ with
          imm := (readIcache (s.procs ram i).toNum).imm
          icacheRam := ram
          icacheVar := successor i }
  /-- A word without a slot. -/
  | slow {a w : Int} {s₁ : Hart} (hv : s.icacheVar = .null)
      (ha : fetchAddress cfg (fetchHart s) = .ok a s₁) (hcached : ¬Cached cfg s.etext a)
      (hw : IsWord w ∧ loadWord cfg a { mcause := 1, mtval := s.pc } s₁ = .ok w s₁) :
      Fetches cfg s (slowFetch w s.imm) { s₁ with imm := (slowFetch w s.imm).imm }

inductive FetchRaises (cfg : PageConfig) (s : Hart) : Trap → Prop
  /-- A fault of the page walk. -/
  | walk {t : Trap} {s' : Hart} (h : fetchAddress cfg (fetchHart s) = .error t s') : FetchRaises cfg s t
  /-- The address is not in ROM or RAM. -/
  | denied {a : Int} {s' : Hart} (h : fetchAddress cfg (fetchHart s) = .ok a s')
      (hdenied : cfg.romSize ≤ a ∧ ¬InRam cfg a) : FetchRaises cfg s { mcause := 1, mtval := s.pc }

/-! ## Addresses -/

theorem fetchAddress_frame (cfg : PageConfig) (s : Hart) :
    wp (fetchAddress cfg) (fun a s' => LoadFrame s s' ∧ ((0 ≤ a ∧ a < 2 ^ 32) ∨ a = s.pc) ∧
      a % 4096 = s.pc % 4096)
      (fun t s' => (t = { mcause := 1, mtval := s.pc } ∨ t = { mcause := 12, mtval := s.pc }) ∧
        LoadFrame s s') s := by
  simp only [fetchAddress, wp_bind, wp_get, wp_ite, wp_pure]
  refine ⟨fun _ => ?_, fun _ => ⟨.refl s, Or.inr trivial, trivial⟩⟩
  exact wp_mono (translateVirtualAddress_frame cfg { mcause := 1, mtval := s.pc } s)
    (fun _ _ h => h) fun _ _ h => h

theorem loadWord_code {a : Int} (trap : Trap) (h : a < cfg.romSize ∨ InRam cfg a) (s : Hart) :
    wp (loadWord cfg a trap) (fun w s' => s' = s ∧ IsWord w) (fun _ _ => False) s := by
  have hrom := loadRomWordUnchecked_word cfg a
  have hram : IsWord (loadRamWordUnchecked cfg s.procs a) := swapEndianness_word _
  have hmmio (h : InRam cfg a) : ¬a ≥ mmioStart := by
    have hsize := cfg.ramSize_le
    have hlt := h.2
    unfold PageConfig.ramEnd ramStart at hlt
    unfold mmioStart
    omega
  simp only [loadWord, loadRamOrMmioWord, wp_bind, wp_get, wp_ite, wp_throw, wp_pure]
  refine ⟨fun _ => ⟨trivial, hrom⟩, fun hnot => ?_⟩
  have h := h.resolve_left hnot
  exact ⟨fun hge => absurd hge (hmmio h), fun _ => ⟨fun hlt => absurd h.1 (not_le.mpr hlt),
    fun _ => ⟨fun hge => absurd h.2 (not_lt.mpr hge), fun _ => ⟨trivial, hram⟩⟩⟩⟩

/-! ## The paths of main -/

theorem mainReadIcache_correct (cfg : PageConfig) {s : Hart} {i : Nat} (hv : s.icacheVar = .var i) :
    mainReadIcache cfg s = .ok (some (readIcache (s.procs s.icacheRam i).toNum))
      { s with
        imm := (readIcache (s.procs s.icacheRam i).toNum).imm
        icacheVar := s.procs cfg.incr i } := by
  unfold mainReadIcache
  rw [bind_get, hv]
  rfl

theorem mainReadIcache_noError (cfg : PageConfig) (s : Hart) :
    wp (mainReadIcache cfg) (fun _ _ => True) (fun _ _ => False) s := by
  simp only [mainReadIcache, wp_bind, wp_get]
  cases s.icacheVar <;> trivial

theorem LoadFrame.etext {s s' : Hart} (h : LoadFrame s s') : s'.etext = s.etext := by
  obtain ⟨_, _, _, rfl, _⟩ := h
  rfl

theorem LoadFrame.imm {s s' : Hart} (h : LoadFrame s s') : s'.imm = s.imm := by
  obtain ⟨_, _, _, rfl, _⟩ := h
  rfl

theorem LoadFrame.pc {s s' : Hart} (h : LoadFrame s s') : s'.pc = s.pc := by
  obtain ⟨_, _, _, rfl, _⟩ := h
  rfl

/-- The slow path, for an address below the end of ROM or in RAM, and its fault elsewhere. -/
theorem mainSlowInstructionFetch_correct (cfg : PageConfig) (a : Int) (s : Hart) :
    wp (mainSlowInstructionFetch cfg a)
      (fun d s' => ∃ w, (IsWord w ∧ loadWord cfg a { mcause := 1, mtval := s.pc } s = .ok w s) ∧
        d = some (slowFetch w s.imm) ∧ s' = { s with imm := (slowFetch w s.imm).imm })
      (fun t s' => s' = s ∧ t = { mcause := 1, mtval := s.pc } ∧ cfg.romSize ≤ a ∧ ¬InRam cfg a) s := by
  have hrom : cfg.romSize ≤ cfg.ramEnd := by
    have := cfg.romSize_le
    unfold PageConfig.romSize PageConfig.ramEnd ramStart
    omega
  simp only [mainSlowInstructionFetch, wp_bind, wp_get, wp_ite, wp_throw, wp_modify, wp_pure, true_and]
  refine ⟨fun hend => ⟨by omega, fun h => absurd h.2 (by omega)⟩, fun hend => ?_⟩
  refine wp_intro (fun w s' hx => ?_) fun t s' hx => ?_
  · by_cases hcode : a < cfg.romSize ∨ InRam cfg a
    · obtain ⟨rfl, hw⟩ := wp_ok (loadWord_code _ hcode s) hx
      exact ⟨w, ⟨hw, hx⟩, rfl, rfl⟩
    · exfalso
      have hnot := not_or.mp hcode
      have hram : ¬(ramStart ≤ a ∧ a < cfg.ramEnd) := hnot.2
      have hmmio : ¬a ≥ mmioStart := by
        have := cfg.ramSize_le
        unfold PageConfig.ramEnd ramStart at hend
        unfold mmioStart
        omega
      rw [loadWord, if_neg hnot.1, loadRamOrMmioWord, if_neg hmmio, if_pos (by omega)] at hx
      cases hx
  · obtain ⟨rfl, rfl⟩ := wp_error (loadWord_frame cfg a { mcause := 1, mtval := s.pc } s) hx
    have hcode : ¬(a < cfg.romSize ∨ InRam cfg a) := fun hcode => wp_error (loadWord_code _ hcode s') hx
    exact ⟨rfl, rfl, not_lt.mp (not_or.mp hcode).1, (not_or.mp hcode).2⟩

theorem mainAccessRamIcache_noError (cfg : PageConfig) (a : Int) (s : Hart) :
    wp (mainAccessRamIcache cfg a) (fun _ _ => True) (fun _ _ => False) s := by
  simp only [mainAccessRamIcache, wp_bind, wp_modify]
  exact mainReadIcache_noError cfg _

theorem mainAccessRamIcache_correct {a b : Int} (hb : IcacheCell cfg b)
    (hslot : icacheSlot cfg a = accessRamRaw cfg b)
    (hincr : ∀ i, s.procs cfg.incr i = successor i) :
    ∃ ram i, icacheSlot cfg a = (ram, .var i) ∧
      mainAccessRamIcache cfg b s = .ok (some (readIcache (s.procs ram i).toNum))
        { s with
          imm := (readIcache (s.procs ram i).toNum).imm
          icacheRam := ram
          icacheVar := successor i } := by
  obtain ⟨ram, i, heq⟩ : ∃ ram i, accessRamRaw cfg b = (ram, .var i) :=
    ⟨_, _, accessRamRaw_eq cfg hb.inCells.1⟩
  refine ⟨ram, i, hslot.trans heq, ?_⟩
  unfold mainAccessRamIcache
  rw [heq, ← hincr]
  exact mainReadIcache_correct cfg (s := { s with icacheRam := ram, icacheVar := .var i }) rfl

/-! ## Fetch -/

theorem fetch_correct (cfg : PageConfig) (s : Hart) :
    wp (fetch cfg) (fun d s' => Sound cfg s → ∃ d', d = some d' ∧ Fetches cfg s d' s')
      (fun t s' => LoadFrame (fetchHart s) s' ∧ FetchRaises cfg s t) s := by
  have hframe := fetchAddress_frame cfg (fetchHart s)
  simp only [fetch, wp_bind, wp_modify, wp_get, wp_ite]
  refine ⟨fun hvar => ?_, fun hnull => ?_⟩
  · refine wp_intro (fun d s' hx hs => ?_) fun t s' hx => ?_
    · rcases hs.cursor.var with hv | ⟨i, hv⟩
      · rw [hv] at hvar
        cases hvar
      · have heq := (mainReadIcache_correct cfg (s := fetchHart s) hv).symm.trans hx
        obtain ⟨rfl, rfl⟩ := EStateM.Result.ok.inj heq
        refine ⟨_, rfl, ?_⟩
        change Fetches cfg s _ { fetchHart s with imm := _, icacheVar := s.procs cfg.incr i }
        rw [hs.incr]
        exact .cursor hv
    · exact (wp_error (mainReadIcache_noError cfg (fetchHart s)) hx).elim
  · have hv (hs : Sound cfg s) : s.icacheVar = .null := by
      rcases hs.cursor.var with hv | ⟨i, hv⟩
      · exact hv
      · rw [hv] at hnull
        exact absurd rfl hnull
    refine wp_intro (fun a s₁ ha => ?_) fun t s₁ ha => ?_
    · obtain ⟨hload, hrange, hpage⟩ := wp_ok hframe ha
      have hetext : s₁.etext = s.etext := hload.etext
      have hprocs : s₁.procs = s.procs := hload.procs
      have hnonneg (hs : Sound cfg s) : 0 ≤ a := by
        rcases hrange with h | h
        · exact h.1
        · exact h ▸ hs.pc.1
      -- an address with a slot
      have hicache (b : Int) (hb : Sound cfg s → Cached cfg s.etext a ∧ IcacheCell cfg b ∧
          icacheSlot cfg a = accessRamRaw cfg b) :
          wp (mainAccessRamIcache cfg b) (fun d s' => Sound cfg s →
            ∃ d', d = some d' ∧ Fetches cfg s d' s')
            (fun t s' => LoadFrame (fetchHart s) s' ∧ FetchRaises cfg s t) s₁ := by
        refine wp_intro (fun d s' hx hs => ?_) fun t s' hx => ?_
        · obtain ⟨hcached, hcell, hslot⟩ := hb hs
          obtain ⟨ram, i, hslot', heq⟩ :=
            mainAccessRamIcache_correct (s := s₁) hcell hslot (hprocs ▸ hs.incr)
          rw [heq] at hx
          obtain ⟨rfl, rfl⟩ := EStateM.Result.ok.inj hx
          have hfetches := Fetches.icache (hv hs) ha hcached hslot'
          rw [← hprocs] at hfetches
          exact ⟨_, rfl, hfetches⟩
        · exact (wp_error (mainAccessRamIcache_noError cfg b s₁) hx).elim
      have hslow (hnot : Sound cfg s → ¬Cached cfg s.etext a) :
          wp (mainSlowInstructionFetch cfg a) (fun d s' => Sound cfg s →
            ∃ d', d = some d' ∧ Fetches cfg s d' s')
            (fun t s' => LoadFrame (fetchHart s) s' ∧ FetchRaises cfg s t) s₁ := by
        have hpc : s₁.pc = s.pc := hload.pc
        have himm : s₁.imm = s.imm := hload.imm
        refine wp_mono (mainSlowInstructionFetch_correct cfg a s₁) (fun d s' h hs => ?_) fun t s' h => ?_
        · obtain ⟨w, hw, rfl, rfl⟩ := h
          rw [hpc] at hw
          rw [himm]
          exact ⟨_, rfl, .slow (hv hs) ha (hnot hs) hw⟩
        · obtain ⟨rfl, rfl, hdenied⟩ := h
          rw [hpc]
          exact ⟨hload, .denied ha hdenied⟩
      rw [hetext]
      refine ⟨fun hlt => hicache _ fun hs => ?_, fun hge => ⟨fun hlow => hslow fun hs h => ?_,
        fun hhigh => ⟨fun hcov => hicache _ fun hs => ?_, fun hend => hslow fun hs h => ?_⟩⟩⟩
      · have hrom : 0 ≤ a ∧ a < cfg.programRomIcacheSize := ⟨hnonneg hs, lt_of_lt_of_le hlt hs.etext⟩
        obtain ⟨b, hb, hslot, rfl⟩ := icacheSlot_cell cfg (Or.inl hrom)
        have hlow : a < ramStart := by
          have := cfg.romSize_le
          unfold PageConfig.programRomIcacheSize at hrom
          unfold ramStart
          omega
        rw [if_pos hlow] at hb hslot
        exact ⟨Or.inl ⟨hrom.1, hlt⟩, hb, hslot⟩
      · rcases h with h | h
        · exact hge h.2
        · exact absurd hlow (not_lt.mpr h.1)
      · obtain ⟨b, hb, hslot, rfl⟩ := icacheSlot_cell cfg (Or.inr ⟨not_lt.mp hhigh, hcov⟩)
        rw [if_neg hhigh] at hb hslot
        exact ⟨Or.inr ⟨not_lt.mp hhigh, hcov⟩, hb, hslot⟩
      · rcases h with h | h
        · exact hge h.2
        · exact hend h.2
    · obtain ⟨-, hload⟩ := wp_error hframe ha
      exact ⟨hload, .walk ha⟩

end Mlogv32.Cpu
