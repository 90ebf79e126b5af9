import Mlogv32.Debugger.Translate
import Mlogv32.Cpu.Controller
import Mlogv32.Cpu.Lemmas.Fetch

/-!
# The debugger against the worker

The debugger shows the address that the worker fetches from, or the cause of the trap that the
worker takes, and the word that the worker decodes. Only MMIO makes a difference: the worker can
load from it, and the debugger never does.
-/

namespace Mlogv32.Debugger
open Cpu Mlog Logic

/-! ## Computations that follow the worker's -/

/-- From a state `s` of the hart, `y` ends as the computation `x` of the worker does, with the same
result or with the cause of its trap, and `x` has no effect. -/
def Follows (y : Op Int) (x : Cpu.Op Int) (s : Hart) : Prop :=
  ∀ e, wp x (fun a s' => s' = s ∧ ∃ e', y e = .ok a e')
    (fun t s' => s' = s ∧ ∃ e', y e = .error (trap t.mcause) e') s

theorem Follows.pure (a : Int) (s : Hart) : Follows (pure a) (pure a) s := fun e => ⟨rfl, e, rfl⟩

theorem Follows.throw {c : TrapCause} {t : Trap} (h : c = trap t.mcause) (s : Hart) :
    Follows (throw c) (throw t) s :=
  fun e => ⟨rfl, e, h ▸ rfl⟩

/-- The debugger notes something for the display first. -/
theorem Follows.modify {y : Op Int} {x : Cpu.Op Int} {s : Hart} (f : Entries → Entries)
    (h : Follows y x s) :
    Follows (modify f >>= fun _ => y) x s :=
  fun e => h (f e)

theorem Follows.bind {y : Op Int} {x : Cpu.Op Int} {g : Int → Op Int} {f : Int → Cpu.Op Int}
    {s : Hart} (h : Follows y x s) (hnext : ∀ a, x s = .ok a s → Follows (g a) (f a) s) :
    Follows (y >>= g) (x >>= f) s := by
  intro e
  rw [wp_bind]
  refine wp_intro (fun a s' hx => ?_) fun t s' hx => ?_
  · obtain ⟨rfl, e', hy⟩ := wp_ok (h e) hx
    rw [bind_ok hy]
    exact hnext a hx e'
  · obtain ⟨rfl, e', hy⟩ := wp_error (h e) hx
    exact ⟨rfl, e', bind_error hy⟩

theorem Follows.ite {c d : Prop} [Decidable c] [Decidable d] {y y' : Op Int} {x x' : Cpu.Op Int}
    {s : Hart} (hcond : c ↔ d) (hpos : d → Follows y x s) (hneg : ¬d → Follows y' x' s) :
    Follows (if c then y else y') (if d then x else x') s := by
  by_cases hd : d
  · rw [if_pos hd, if_pos (hcond.mpr hd)]
    exact hpos hd
  · rw [if_neg hd, if_neg (mt hcond.mp hd)]
    exact hneg hd

/-! ## Physical loads -/

/-- A memory-mapped register. -/
def InMmio (a : Int) : Prop := mmioStart ≤ a ∧ a < 2 ^ 32

instance (a : Int) : Decidable (InMmio a) := inferInstanceAs (Decidable (_ ∧ _))

/-- Above MMIO there is nothing: the worker takes the access for one of a register that does not
exist. -/
theorem loadWord_follows (cfg : Config) {s : Hart} {a : Int} (t : Trap) (h : ¬InMmio a)
    (ha : a < 2 ^ 34) :
    Follows (loadWord cfg s.procs t.mcause a) (Cpu.loadWord cfg a t) s := by
  intro e
  unfold InMmio at h
  simp only [Cpu.loadWord, loadRamOrMmioWord, wp_bind, wp_get, wp_ite, wp_throw, wp_pure, true_and]
  refine ⟨fun hrom => ⟨e, by rw [loadWord, if_pos hrom]; rfl⟩, fun hrom =>
    ⟨fun hmmio => ?_, fun hmmio => ?_⟩⟩
  · have hoffset : 0x50 ≤ opAnd (a - mmioStart) 0x3fffffffc := by
      unfold mmioStart at h hmmio ⊢
      rw [opAnd_mask _ 2 32 (by decide) (by decide)]
      omega
    have hsyscon : a ≠ syscon := by
      unfold syscon mmioStart at *
      omega
    simp only [loadMmioWord, wp_bind, wp_get, wp_ite, wp_throw]
    refine ⟨fun h => absurd h hsyscon, fun _ => ⟨fun _ => ⟨trivial, e, ?_⟩, fun h => absurd hoffset h⟩⟩
    rw [loadWord, if_neg hrom, if_pos hmmio]
    rfl
  · refine ⟨fun hlow => ⟨e, ?_⟩, fun hlow => ⟨fun hend => ⟨e, ?_⟩, fun hend => ⟨e, ?_⟩⟩⟩
    · rw [loadWord, if_neg hrom, if_neg hmmio, if_pos hlow]
      rfl
    · rw [loadWord, if_neg hrom, if_neg hmmio, if_neg hlow, if_pos hend]
      rfl
    · rw [loadWord, if_neg hrom, if_neg hmmio, if_neg hlow, if_neg hend]
      rfl

/-! ## The page walk -/

theorem validChar_iff (i : Int) : validChar i ≠ 49 ↔ (!validPte i) = true := by
  unfold validChar validPte validIndices
  split_ifs with h <;> simp [h]

theorem maskChar_eq (i : Int) : maskChar i = pteMask i := rfl

theorem step5PageFault_iff (s : Hart) (pte mcause : Int) :
    step5PageFault s pte mcause = true ↔
      opOr (opAnd pte 0b10000) s.effectivePrivilegeMode = 0 ∨
        ((mcause = 1 ∨ opAnd s.csrMstatus 0b1000000000000000000 = 0) ∧
          opOr (opAnd pte 0b10000) s.effectivePrivilegeMode = 0b10001) := by
  simp only [step5PageFault, Bool.or_eq_true, Bool.and_eq_true, decide_eq_true_eq]

theorem translateStep5_follows (s : Hart) (pte nonlocal2 : Int) (t : Trap) :
    Follows (translateStep5 s t.mcause t.mtval pte nonlocal2) (translateLeaf pte nonlocal2 t) s := by
  intro e
  simp only [translateLeaf, translateStep5, wp_bind, wp_get, wp_ite, wp_throw, wp_pure, true_and,
    step5PageFault_iff, step5Mask, ← maskChar_eq]
  refine ⟨fun h5 => ⟨e, ?_⟩, fun h5 => ⟨fun hmask => ⟨e, ?_⟩, fun hmask => ⟨fun h6 => ⟨e, ?_⟩, fun h6 =>
    ⟨fun h7 => ⟨e, ?_⟩, fun h7 => ⟨fun h8 => ⟨e, ?_⟩, fun h8 =>
      ⟨fun hsuper => ⟨e, ?_⟩, fun hsuper => ⟨e, ?_⟩⟩⟩⟩⟩⟩⟩
  · rw [if_pos h5]; rfl
  · rw [if_neg h5, if_pos hmask]; rfl
  · rw [if_neg h5, if_neg hmask, if_pos h6]; rfl
  · rw [if_neg h5, if_neg hmask, if_neg h6, if_pos h7]; rfl
  · rw [if_neg h5, if_neg hmask, if_neg h6, if_neg h7, if_pos h8]; rfl
  · rw [if_neg h5, if_neg hmask, if_neg h6, if_neg h7, if_neg h8, if_pos hsuper]; rfl
  · rw [if_neg h5, if_neg hmask, if_neg h6, if_neg h7, if_neg h8, if_neg hsuper]; rfl

/-- The PTE at a level that the worker takes for a pointer. -/
def PointerAt (cfg : Config) (t : Trap) (s : Hart) (a pte : Int) : Prop :=
  Cpu.loadWord cfg a t s = .ok pte s ∧ validPte (opAnd pte 0b1001111) = true ∧ opAnd pte 0b1010 = 0

/-- One level of the walk. -/
theorem translateLevel_follows {cfg : Config} {s : Hart} {t : Trap} {i : Nat} {a : Int} {rounds : Nat}
    {next : Int → Cpu.Op Int} (h : ¬InMmio (pteAddress t.mtval a i))
    (hlt : pteAddress t.mtval a i < 2 ^ 34)
    (hnext : ∀ pte, PointerAt cfg t s (pteAddress t.mtval a i) pte →
      Follows (if ((i + 1) * 10 : Int) ≠ 20 then throw (pageFault t.mcause)
        else translateStep2 cfg s t.mcause t.mtval rounds (opShl (opAnd pte 0xfffffc00) 2) 10)
        (next (opShl (opAnd pte 0xfffffc00) 2)) s) :
    Follows (translateStep2 cfg s t.mcause t.mtval (rounds + 1) a ((i + 1) * 10))
      (translateLevel cfg t i a next) s := by
  have hload := loadWord_follows cfg (s := s) t h hlt
  refine .modify _ (hload.bind fun pte hpte =>
    .modify _ (.ite (validChar_iff _) (fun _ => .throw rfl s) fun hvalid => ?_))
  refine .ite Iff.rfl (fun _ => translateStep5_follows s pte _ t) fun hpointer =>
    hnext pte ⟨hpte, ?_, not_not.mp hpointer⟩
  simpa using hvalid

/-- The address that the PTE `pte` points to is that of a page. -/
theorem table_range (pte : Int) :
    opShl (opAnd pte 0xfffffc00) 2 % 4096 = 0 ∧ opShl (opAnd pte 0xfffffc00) 2 < 2 ^ 34 := by
  have hmask := opAnd_mask (b := 0xfffffc00) pte 10 22 (by decide) (by decide)
  have htable : opShl (opAnd pte 0xfffffc00) 2 = opAnd pte 0xfffffc00 * 2 ^ 2 :=
    opShl_eq _ 2 (by decide) (by omega) (by omega)
  omega

/-- The PTE of `pc` in the root table. -/
def rootPte (cfg : Config) (s : Hart) : Int :=
  pteAddress s.pc (opAnd (s.csr cfg satpCsr) 0x3fffff * 4096) 1

/-- The addresses of the PTEs that the worker reads to fetch from `pc`. -/
inductive PteAddress (cfg : Config) (s : Hart) : Int → Prop
  | root (hmode : 0x80000000 ≤ s.csr cfg satpCsr) : PteAddress cfg s (rootPte cfg s)
  | next {pte : Int} (hmode : 0x80000000 ≤ s.csr cfg satpCsr)
      (hpte : PointerAt cfg { mcause := 1, mtval := s.pc } s (rootPte cfg s) pte) :
      PteAddress cfg s (pteAddress s.pc (opShl (opAnd pte 0xfffffc00) 2) 0)

theorem translateVirtualAddress_follows {cfg : Config} {s : Hart}
    (h : ∀ a, PteAddress cfg s a → ¬InMmio a) :
    Follows (translateVirtualAddress cfg s 1 s.pc) (Cpu.translateVirtualAddress cfg
      { mcause := 1, mtval := s.pc }) s := by
  intro e
  rw [Cpu.translateVirtualAddress, wp_bind, wp_get]
  refine Follows.ite Iff.rfl (fun _ => .pure s.pc s) (fun hmode => ?_) e
  have hlow := opAnd_low (s.csr cfg satpCsr) 22 (by decide)
  norm_num at hlow
  refine translateLevel_follows (t := { mcause := 1, mtval := s.pc }) (i := 1)
    (h _ (.root (not_lt.mp hmode)))
    (pteAddress_range _ 1 (by omega) (by omega)).2 fun pte hpte => ?_
  have htable := table_range pte
  exact translateLevel_follows (t := { mcause := 1, mtval := s.pc }) (i := 0)
    (h _ (.next (not_lt.mp hmode) hpte))
    (pteAddress_range _ 0 htable.1 htable.2).2 fun _ _ => .throw rfl s

/-! ## The display -/

/-- What the debugger shows of a fetch from `pc` is what the worker does. -/
structure ShowsFetch (cfg : Config) (s : Hart) (d : Display) : Prop where
  address : ∀ a, d.physicalAddress = .num a ↔ fetchAddress cfg s = .ok a s
  accessFault : d.physicalAddress = .cause .accessFlt ↔ fetchAddress cfg s = .error
    { mcause := 1, mtval := s.pc } s
  pageFault : d.physicalAddress = .cause .pageFlt ↔ fetchAddress cfg s = .error
    { mcause := 12, mtval := s.pc } s
  shown : (∃ a, d.physicalAddress = .num a) ∨ d.physicalAddress = .cause .accessFlt ∨
    d.physicalAddress = .cause .pageFlt
  /-- The instruction word is the word that the slow fetch decodes. -/
  word : ∀ a w, d.physicalAddress = .num a → ¬InMmio a → d.instruction = some (.num w) →
    Cpu.loadWord cfg a { mcause := 1, mtval := s.pc } s = .ok w s ∧
    mainSlowInstructionFetch cfg a s = .ok (some (slowFetch w s.imm))
      { s with imm := (slowFetch w s.imm).imm }
  /-- Without a word the slow fetch raises an access fault. -/
  noWord : ∀ a, d.physicalAddress = .num a → ¬InMmio a → (∀ w, d.instruction ≠ some (.num w)) →
    d.instruction = some (.cause .accessFlt) ∧
    mainSlowInstructionFetch cfg a s = .error { mcause := 1, mtval := s.pc } s

/-- The word that the debugger loads for the instruction, against the slow fetch. -/
theorem loadWord_slowFetch (cfg : Config) (s : Hart) {a : Int} (h : ¬InMmio a) (e : Entries) :
    (∃ w e', loadWord cfg s.procs 1 a e = .ok w e' ∧
      Cpu.loadWord cfg a { mcause := 1, mtval := s.pc } s = .ok w s ∧
      mainSlowInstructionFetch cfg a s =
        .ok (some (slowFetch w s.imm)) { s with imm := (slowFetch w s.imm).imm }) ∨
    ∃ e', loadWord cfg s.procs 1 a e = .error .accessFlt e' ∧
      mainSlowInstructionFetch cfg a s = .error { mcause := 1, mtval := s.pc } s := by
  by_cases hend : a ≥ cfg.ramEnd
  · have hrom : ¬a < cfg.romSize := by
      have := cfg.romSize_le
      unfold PageConfig.ramEnd ramStart at hend
      unfold PageConfig.romSize
      omega
    have hslow : mainSlowInstructionFetch cfg a s = .error { mcause := 1, mtval := s.pc } s := by
      rw [mainSlowInstructionFetch, bind_get, if_pos hend]
      rfl
    refine Or.inr ⟨e, ?_, hslow⟩
    rw [loadWord, if_neg hrom]
    by_cases hmmio : a ≥ mmioStart
    · rw [if_pos hmmio]; rfl
    · have hlow : ¬a < ramStart := by
        unfold PageConfig.ramEnd at hend
        omega
      rw [if_neg hmmio, if_neg hlow, if_pos hend]; rfl
  · have hlt : a < 2 ^ 34 := by
      have := cfg.ramSize_le
      unfold PageConfig.ramEnd ramStart at hend
      omega
    have hload := loadWord_follows cfg (s := s) { mcause := 1, mtval := s.pc } h hlt e
    cases hx : Cpu.loadWord cfg a { mcause := 1, mtval := s.pc } s with
    | ok w s' =>
        obtain ⟨rfl, e', hy⟩ := wp_ok hload hx
        refine Or.inl ⟨w, e', hy, rfl, ?_⟩
        rw [mainSlowInstructionFetch, bind_get, if_neg hend]
        exact bind_ok hx
    | error t s' =>
        obtain ⟨rfl, e', hy⟩ := wp_error hload hx
        obtain ⟨rfl, -⟩ := wp_error (loadWord_frame cfg a _ s') hx
        refine Or.inr ⟨e', hy, ?_⟩
        rw [mainSlowInstructionFetch, bind_get, if_neg hend]
        exact bind_error hx

section
variable {cfg : Config} {s : Hart} (hmode : s.privilegeMode < 0b11) {e : Entries}
include hmode

theorem loop_ok {a : Int} (hy : translateVirtualAddress cfg s 1 s.pc {} = .ok a e) :
    (loop cfg s none).physicalAddress = .num a ∧
    (∀ w e', loadWord cfg s.procs 1 a e = .ok w e' → (loop cfg s none).instruction = some (.num w)) ∧
    (∀ c e', loadWord cfg s.procs 1 a e = .error c e' →
      (loop cfg s none).instruction = some (.cause c)) := by
  simp only [loop, Option.getD_none, Option.isNone_none, if_true, if_pos hmode, hy]
  cases hw : loadWord cfg s.procs 1 a e <;> simp

theorem loop_error {c : TrapCause} (hy : translateVirtualAddress cfg s 1 s.pc {} = .error c e) :
    (loop cfg s none).physicalAddress = .cause c := by
  simp only [loop, Option.getD_none, Option.isNone_none, if_true, if_pos hmode, hy]

/-- In every state below M-mode, with no PTE in MMIO. -/
theorem loop_showsFetch (hmmio : ∀ a, PteAddress cfg s a → ¬InMmio a) :
    ShowsFetch cfg s (loop cfg s none) := by
  have hfetch : fetchAddress cfg s = Cpu.translateVirtualAddress cfg
      { mcause := 1, mtval := s.pc } s := by
    rw [fetchAddress, bind_get, if_pos hmode]
  have hfollows := translateVirtualAddress_follows hmmio {}
  cases hx : Cpu.translateVirtualAddress cfg { mcause := 1, mtval := s.pc } s with
  | ok a s' =>
      obtain ⟨rfl, e, hy⟩ := wp_ok hfollows hx
      obtain ⟨haddress, hword, hcause⟩ := loop_ok hmode hy
      rw [hx] at hfetch
      constructor
      all_goals simp only [haddress, hfetch, Shown.num.injEq, EStateM.Result.ok.injEq,
        reduceCtorEq, and_true, implies_true]
      case shown => exact Or.inl ⟨a, rfl⟩
      case word =>
          rintro _ w rfl hmmio hshown
          rcases loadWord_slowFetch cfg s' hmmio e with ⟨w', e', hy', hslow⟩ | ⟨e', hy', -⟩
          · rw [hword w' e' hy'] at hshown
            cases hshown
            exact hslow
          · rw [hcause _ e' hy'] at hshown
            cases hshown
      case noWord =>
          rintro _ rfl hmmio hshown
          rcases loadWord_slowFetch cfg s' hmmio e with ⟨w', e', hy', -⟩ | ⟨e', hy', hslow⟩
          · exact absurd (hword w' e' hy') (hshown w')
          · exact ⟨hcause _ e' hy', hslow⟩
  | error t s' =>
      obtain ⟨rfl, e, hy⟩ := wp_error hfollows hx
      have hcause := loop_error hmode hy
      rw [hx] at hfetch
      obtain ⟨ht, -⟩ := wp_error (fetchAddress_frame cfg s') hfetch
      rcases ht with rfl | rfl
      all_goals constructor
      all_goals simp [hcause, hfetch, trap]

end

/-- A supervisor at address 0, which its root table at the start of RAM maps to the start of RAM. -/
def mappedHart : Hart :=
  { (Machine.powerOn (smallBuild fun _ _ => none) fun _ _ => 0).hart with
    pc := 0
    privilegeMode := 0b01
    effectivePrivilegeMode := 0b01
    procs := fun t i =>
      if t = (9, 22) ∧ i = satpCsr then .num 0x80080000
      else if t = (0, 1) ∧ i = 0 then .num 0x4b000020 else .null }

theorem loop_showsFetch_mappedHart :
    ShowsFetch (smallBuild fun _ _ => none) mappedHart
      (loop (smallBuild fun _ _ => none) mappedHart none) ∧
    (loop (smallBuild fun _ _ => none) mappedHart none).instruction = some (.num 0x2000004b) := by
  have hroot : rootPte (smallBuild fun _ _ => none) mappedHart = 0x80000000 := by decide
  have hload {s : Hart} {pte : Int} (t : Trap)
      (h : Cpu.loadWord (smallBuild fun _ _ => none) 0x80000000 t mappedHart = .ok pte s) :
      pte = 0x2000004b := by
    cases h
    decide
  refine ⟨loop_showsFetch (by decide) fun a ha => ?_, by decide⟩
  cases ha with
  | root hmode => rw [hroot]; decide
  | next hmode hpte =>
      obtain ⟨hx, -, hpointer⟩ := hpte
      rw [hroot] at hx
      rw [hload _ hx] at hpointer
      exact absurd hpointer (by decide)

end Mlogv32.Debugger
