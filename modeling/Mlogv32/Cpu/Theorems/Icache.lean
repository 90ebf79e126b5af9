import Mlogv32.Cpu.Lemmas.Icache

/-!
# Coherence of the icache

The icache is written by every kind of store, by MLOGSYS and by nothing else, so in every state of a
run the slot of a covered address has the decoded form of the word that is stored there.
-/

namespace Mlogv32.Cpu
open Mlog Logic Isa

variable {cfg : PageConfig} {s s' : Hart}

/-! ## What a step keeps -/

/-- No held slot is lost, and an address that becomes covered is held. -/
structure KeepsIcache (cfg : PageConfig) (s s' : Hart) : Prop where
  held : ∀ a, SlotWord cfg a → Held cfg s.procs a → Held cfg s'.procs a
  covered : ∀ a, SlotWord cfg a → Cached cfg s'.etext a → Cached cfg s.etext a ∨ Held cfg s'.procs a
  aligned : s.etext % 4096 = 0 → s'.etext % 4096 = 0

theorem KeepsIcache.refl (cfg : PageConfig) (s : Hart) :
    KeepsIcache cfg s s := ⟨fun _ _ h => h, fun _ _ h => Or.inl h, id⟩

theorem KeepsIcache.trans {s'' : Hart} (h : KeepsIcache cfg s s') (h' : KeepsIcache cfg s' s'') :
    KeepsIcache cfg s s'' where
  held _ ha hheld := h'.held _ ha (h.held _ ha hheld)
  covered _ ha hcached := by
    rcases h'.covered _ ha hcached with hcached | hheld
    · exact (h.covered _ ha hcached).imp_right (h'.held _ ha)
    · exact Or.inr hheld
  aligned halign := h'.aligned (h.aligned halign)

/-- A change outside the memory processors. -/
theorem KeepsIcache.of_csrs (hprocs : ∀ t, t ≠ cfg.csrs → s'.procs t = s.procs t)
    (hetext : s'.etext = s.etext) :
    KeepsIcache cfg s s' where
  held _ ha h := h.congr ha fun _ hb => cell_of_ne_csrs hprocs hb
  covered _ _ h := Or.inl (hetext ▸ h)
  aligned h := hetext ▸ h

/-- A change of variables of the worker only. -/
theorem KeepsIcache.of_procs (hprocs : s'.procs = s.procs) (hetext : s'.etext = s.etext) :
    KeepsIcache cfg s s' :=
  .of_csrs (fun _ _ => by rw [hprocs]) hetext

theorem KeepsIcache.writeCsr (s : Hart) (n : Nat) (x : Int) :
    KeepsIcache cfg s (s.writeCsr cfg (.var n) x) :=
  .of_csrs (fun _ ht => writeProc_of_ne s.procs (.var n) (.num x) ht) rfl

theorem LoadFrame.keepsIcache (h : LoadFrame s s') : KeepsIcache cfg s s' := .of_procs h.procs h.etext

theorem KeepsIcache.storedRam (s : Hart) {address value : Int} (ha : InRam cfg address ∧ address % 4 = 0)
    (hvalue : IsWord value) : KeepsIcache cfg s (storedRam cfg s address value) := by
  have hetext : (Cpu.storedRam cfg s address value).etext = s.etext := by
    unfold Cpu.storedRam
    split <;> rfl
  exact ⟨fun _ hb h => held_storedRam s ha hvalue hb h, fun _ _ h =>
    Or.inl (hetext ▸ h), fun h => hetext ▸ h⟩

/-- MLOGSYS decodes what it covers. -/
theorem mlogsysHart_keepsIcache (hs : Sound cfg s) (rs1 : Int) :
    KeepsIcache cfg s (mlogsysHart cfg rs1 s) := by
  obtain ⟨a, ha, hetext, hheld, hdone⟩ := mlogsysHart_induct
    (P := fun a t => t.etext = mlogsysEtext cfg rs1 ∧
      (∀ b, SlotWord cfg b → Held cfg s.procs b → Held cfg t.procs b) ∧
      ∀ b, SlotWord cfg b → b < ramStart → b < a → Held cfg t.procs b)
    (by
      rintro a t ⟨hetext, hheld, hdone⟩ h0 halign hlt
      have hle := (mlogsysEtext_range cfg rs1).2
      have ha : SlotWord cfg a := ⟨Or.inl ⟨h0, by omega⟩, halign⟩
      have hrom : a < cfg.romSize := lt_of_lt_of_le (by omega) cfg.programRomIcacheSize_le_romSize
      have hstored : storedWord cfg t.procs a = loadRomWordUnchecked cfg a := if_pos hrom
      refine ⟨hetext, fun b hb h => held_decodeToIcache t ha hb hstored fun _ =>
        hheld b hb h, fun b hb hlow hba => ?_⟩
      refine held_decodeToIcache t ha hb hstored fun hne => hdone b hb hlow ?_
      have hb4 := hb.2
      omega)
    hs.incr rs1
    ⟨rfl, fun _ _ h => h, fun b hb hlow hneg => by
      rcases hb.1 with h | h
      · exact absurd h.1 (by omega)
      · exact absurd h.1 (by omega)⟩
  have halign := mlogsysEtext_aligned cfg rs1
  refine ⟨hheld, fun b hb hcached => ?_, fun _ => hetext ▸ halign⟩
  rcases hcached with hcached | hcached
  · have hle := (mlogsysEtext_range cfg rs1).2
    have hrom := cfg.programRomIcacheSize_le.1
    rw [hetext] at hcached
    exact Or.inr (hdone b hb (by omega) (by omega))
  · exact Or.inl (Or.inr hcached)

theorem csrWriteHart_keepsIcache (s : Hart) (n : Nat) (result : Int) (w : CsrWrite) :
    KeepsIcache cfg s (csrWriteHart cfg (.var n) result s w) := by
  cases w with
  | csrs => exact .writeCsr s n result
  | satp =>
      have hnull : KeepsIcache cfg s { s with icacheVar := .null } := .of_procs rfl rfl
      exact hnull.trans (.writeCsr _ n result)
  | minstreth =>
      have hminstret : KeepsIcache cfg s { s with csrMinstret := s.csrMinstret - 1 } := .of_procs rfl rfl
      exact hminstret.trans (.writeCsr _ n result)
  | _ => exact .of_procs rfl rfl

/-- Every handler keeps the icache: the stores to RAM decode what they write. -/
theorem Effect.keepsIcache {label : Label} {d : Fetched} {rs1 rs2 : Int} {e : End}
    (h : Effect cfg label d rs1 rs2 s e s') (hs : Sound cfg s) : KeepsIcache cfg s s' := by
  cases h with
  | compute => exact .refl cfg s
  | pass => exact .refl cfg s
  | jump => exact .of_procs rfl rfl
  | load h => exact h.keepsIcache
  | reserve h => exact h.keepsIcache.trans (.of_procs rfl rfl)
  | @storeRam s₁ r _ _ _ _ h ha hvalue =>
      have hr : KeepsIcache cfg s₁ { s₁ with reservationSet := r } := .of_procs rfl rfl
      exact (h.keepsIcache.trans hr).trans (.storedRam _ ha hvalue)
  | storeSyscon h => exact h.keepsIcache
  | storeMmio _ _ h _ _ hx =>
      refine (h.1.trans h.2).keepsIcache.trans ?_
      rcases storeMmio_frame hx with ⟨-, _, _, rfl⟩ | ⟨-, _, _, _, _, rfl, -⟩
      · exact .of_procs rfl rfl
      · exact .of_procs rfl rfl
  | sret => exact .of_procs rfl rfl
  | mret => exact .of_procs rfl rfl
  | sfence => exact .of_procs rfl rfl
  | csrRead => exact .refl cfg s
  | csrWrite => exact csrWriteHart_keepsIcache s _ _ _
  | mlogsys => exact mlogsysHart_keepsIcache hs rs1

theorem Fetches.keepsIcache {d : Fetched} (h : Fetches cfg s d s') : KeepsIcache cfg s s' := by
  have hstart : KeepsIcache cfg s (fetchHart s) := .of_procs rfl rfl
  have hload {a : Int} {s₁ : Hart} (ha : fetchAddress cfg (fetchHart s) = .ok a s₁) :
      KeepsIcache cfg s s₁ :=
    hstart.trans (wp_ok (fetchAddress_frame cfg (fetchHart s)) ha).1.keepsIcache
  cases h with
  | cursor => exact .of_procs rfl rfl
  | icache _ ha => exact (hload ha).trans (.of_procs rfl rfl)
  | slow _ ha => exact (hload ha).trans (.of_procs rfl rfl)

theorem trapCheckMxdeleg_keepsIcache (cfg : PageConfig) (mxdeleg : Int) (t : Trap) (s : Hart) :
    KeepsIcache cfg s (trapCheckMxdeleg cfg mxdeleg t s).2 := by
  obtain ⟨c, _, _, _, -, heq⟩ := trapCheckMxdeleg_eq cfg mxdeleg t s
  rw [heq]
  exact .of_csrs (fun t' ht => trapProcs_of_ne cfg c t s ht) rfl

theorem incrementInstret_keepsIcache (cfg : PageConfig) (s : Hart) :
    KeepsIcache cfg s (incrementInstret cfg s) := by
  unfold incrementInstret
  dsimp only
  split
  · exact .of_procs rfl rfl
  · have hzero : KeepsIcache cfg s { s with csrMinstret := 0 } := .of_procs rfl rfl
    exact hzero.trans (.writeCsr _ _ _)

theorem finish_keepsIcache (cfg : PageConfig) (s : Hart) (e : End) :
    KeepsIcache cfg s (finish cfg s e).2 := by
  cases hretires : e.retires with
  | false =>
      cases e with
      | reset => exact .refl cfg s
      | lost => exact .refl cfg s
      | _ => cases hretires
  | true =>
      have hrd : KeepsIcache cfg s (writeRd { s with csrMip := e.raise s.csrMip } e.rdId e.rd) := by
        unfold writeRd
        split <;> exact .of_procs rfl rfl
      have hretired : KeepsIcache cfg s (retiredHart cfg s e) :=
        hrd.trans (incrementInstret_keepsIcache cfg _)
      rw [finish_eq cfg s hretires, endInstructionTrap_snd]
      exact hretired.trans (.of_procs rfl rfl)

/-- Only a reset forgets what ROM has in the icache. -/
theorem SoundMachine.keepsIcache {m : Machine} (h : SoundMachine cfg m) (e : Event)
    (hg : StoresOk cfg m e) (hreset : e ≠ .reset) :
    KeepsIcache cfg m.hart (m.apply cfg e).hart := by
  have hs := h.hart
  cases e with
  | reset => exact absurd rfl hreset
  | device uarts => exact .of_procs rfl rfl
  | tick delta =>
      rw [Machine.apply]
      split
      · exact .of_procs rfl rfl
      · exact .refl cfg m.hart
  | handOff =>
      rw [Machine.apply]
      split
      · unfold incrementMcycle
        dsimp only
        split
        · exact .of_procs rfl rfl
        · have hzero : KeepsIcache cfg m.hart { m.hart with csrMcycle := 0 } := .of_procs rfl rfl
          exact hzero.trans (.writeCsr _ _ _)
      · exact .refl cfg m.hart
  | step =>
      change KeepsIcache cfg m.hart (stepPoint cfg m.point m.hart).2
      cases hpoint : m.point with
      | pollInterrupts => exact .of_procs rfl rfl
      | fireInterrupts =>
          have hlowered : KeepsIcache cfg m.hart (loweredHart m.hart) := .of_procs rfl rfl
          rcases fireInterrupts_cases cfg m.hart with heq | ⟨i, heq⟩
          · rw [stepPoint, heq]
            exact hlowered
          · rw [stepPoint, heq]
            exact hlowered.trans (trapCheckMxdeleg_keepsIcache cfg _ _ _)
      | main =>
          have hfetch := fetch_correct cfg m.hart
          rw [stepPoint]
          cases hx : fetch cfg m.hart with
          | ok d s' =>
              obtain ⟨d', rfl, hd⟩ := wp_ok hfetch hx hs
              exact hd.keepsIcache
          | error t s' =>
              obtain ⟨hload, -⟩ := wp_error hfetch hx
              have hstart : KeepsIcache cfg m.hart (fetchHart m.hart) := .of_procs rfl rfl
              exact hstart.trans hload.keepsIcache
      | execute d rs1 rs2 =>
          rw [stepPoint]
          cases hx : execute cfg d rs1 rs2 m.hart with
          | ok e s' =>
              obtain ⟨label, -, heffect⟩ := execute_effect (h.ready hpoint hg) hx
              exact heffect.keepsIcache hs
          | error t s' =>
              obtain ⟨label, -, hload, -⟩ := execute_raises hx
              exact hload.keepsIcache
      | ending e => exact finish_keepsIcache cfg m.hart e
      | trap t => exact trapCheckMxdeleg_keepsIcache cfg _ t m.hart
      | reset => exact .refl cfg m.hart
      | lost => exact .refl cfg m.hart

/-! ## Runs -/

/-- The covered words are held. -/
structure Coherent (cfg : PageConfig) (s : Hart) : Prop where
  held : ∀ a, SlotWord cfg a → Cached cfg s.etext a → Held cfg s.procs a
  aligned : s.etext % 4096 = 0

theorem Coherent.next (h : Coherent cfg s) (hkeeps : KeepsIcache cfg s s') : Coherent cfg s' where
  held a ha hcached :=
    (hkeeps.covered a ha hcached).elim (fun h' => hkeeps.held a ha (h.held a ha h')) id
  aligned := hkeeps.aligned h.aligned

/-- After a reset the icache covers RAM only, and RAM stays as it was. -/
theorem Coherent.reset (h : Coherent cfg s) (uartFlags : Int) :
    Coherent cfg (resetHart cfg s uartFlags) := by
  have hcells (b : Int) (hb : InCells cfg b) : cell cfg (resetHart cfg s uartFlags).procs b =
      cell cfg s.procs b :=
    cell_of_ne_csrs (fun t ht => funext (resetHart_procs_of_ne s uartFlags ht)) hb
  refine ⟨fun a ha hcached => ?_, rfl⟩
  rcases hcached with hcached | hcached
  · have hneg : a < 0 := hcached.2
    exact absurd hcached.1 (by omega)
  · exact (h.held a ha (Or.inr hcached)).congr ha hcells

theorem coherent_start (cfg : PageConfig) (uarts : Uarts) : Coherent cfg (Machine.start cfg uarts).hart := by
  refine Coherent.reset ⟨fun a ha hcached => ?_, rfl⟩ _
  have hnull {b : Int} (hb : InCells cfg b) :
      cell cfg (Machine.powerOn cfg uarts).hart.procs b = .null := by
    have hincr := hb.ne_incr
    have hlabels := hb.ne_csrLabels
    rw [accessRamRaw_eq cfg hb.1] at hincr hlabels
    rw [cell, accessRamRaw_eq cfg hb.1]
    change initProcs cfg _ _ = .null
    rw [initProcs, if_neg hincr, if_neg hlabels]
  rcases ha.cases with ⟨h0, -, -, hlow⟩ | ⟨hram, -, hrom⟩
  · rcases hcached with hcached | hcached
    · have hneg : a < 0 := hcached.2
      omega
    · exact absurd hcached.1 (not_le.mpr hlow)
  · refine Or.inr ⟨hnull ha.cell.inCells, ?_⟩
    obtain ⟨hlow, hhigh⟩ := hram
    unfold PageConfig.ramEnd at hhigh
    rw [storedWord, if_neg hrom, loadRamWordUnchecked_eq, hnull ⟨by omega, by omega⟩]
    decide

theorem Coherent.apply {m : Machine} (h : Coherent cfg m.hart) (hs : SoundMachine cfg m) (e : Event)
    (hg : StoresOk cfg m e) : Coherent cfg (m.apply cfg e).hart := by
  by_cases hreset : e = .reset
  · subst hreset
    exact h.reset _
  · exact h.next (hs.keepsIcache e hg hreset)

theorem Reaches.coherent {guard : Machine → Event → Prop}
    (hguard : ∀ m e, guard m e → StoresOk cfg m e) {m : Machine} (h : Reaches cfg guard m) :
    SoundMachine cfg m ∧ Coherent cfg m.hart := by
  refine Reachable.invariant (I := fun m => SoundMachine cfg m ∧ Coherent cfg m.hart)
    (fun m hm => ?_) (fun m e hm hg => ?_) h
  · obtain ⟨uarts, rfl⟩ := hm
    exact ⟨soundMachine_start cfg uarts, coherent_start cfg uarts⟩
  · exact ⟨hm.1.apply e (hguard m e hg), hm.2.apply hm.1 e (hguard m e hg)⟩

/-- In every state of a run whose stores are `StoreOk`, the slot of a covered word is read back as
the slow path decodes the word that is stored there now. -/
theorem icache_coherent {guard : Machine → Event → Prop}
    (hguard : ∀ m e, guard m e → StoresOk cfg m e) {m : Machine} (h : Reaches cfg guard m) {a : Int}
    (hcached : Cached cfg m.hart.etext a) (halign : a % 4 = 0) (imm : Int) :
    (readIcache (readProc m.hart.procs (icacheSlot cfg a).1 (icacheSlot cfg a).2 .null).toNum).Same
      (slowFetch (storedWord cfg m.hart.procs a) imm) := by
  obtain ⟨hs, hcoherent⟩ := h.coherent hguard
  have ha : SlotWord cfg a := ⟨hcached.imp_left fun h => ⟨h.1, h.2.trans_le hs.hart.etext⟩, halign⟩
  exact (hcoherent.held a ha hcached).readIcache imm

/-! ## A program that writes code -/

/-- `lui x1, 0x80000`, `addi x2, x0, 0x13`, `sw x2, 0(x1)` and `jalr x0, 0(x1)`: write an
instruction to RAM, and jump to it. -/
def storeCode : List Nat := [0x800000b7, 0x01300113, 0x0020a023, 0x00008067]

/-- The machine after `n` steps of `storeCode`. -/
def storeCodeRun (n : Nat) : Machine :=
  (List.replicate n Event.step).foldl (Machine.apply (smallBuild (romOfWords storeCode)))
    (Machine.start (smallBuild (romOfWords storeCode)) fun _ _ => 0)

theorem storeCode_storesOk {n : Nat} (hn : n < 17) :
    StoresOk (smallBuild (romOfWords storeCode)) (storeCodeRun n) .step := by
  have hmapped : ∀ i < 17, (storeCodeRun i).storesMapped (smallBuild (romOfWords storeCode)) =
    true := by decide +kernel
  exact storesOk_of_storesMapped .step (hmapped n hn)

/-- After the store, the slot of the first word of RAM has the instruction. -/
theorem icache_coherent_storeCode :
    (readIcache (readProc (storeCodeRun 11).hart.procs
      (icacheSlot (smallBuild (romOfWords storeCode)) 0x80000000).1
      (icacheSlot (smallBuild (romOfWords storeCode)) 0x80000000).2 .null).toNum).Same
        (slowFetch 0x13 0) := by
  have hreach : Reaches (smallBuild (romOfWords storeCode))
      (StoresOk (smallBuild (romOfWords storeCode))) (storeCodeRun 11) := by
    refine Reachable.run (.init ⟨_, rfl⟩) _ fun i hi => ?_
    rw [List.length_replicate] at hi
    rw [List.take_replicate, List.getElem_replicate, min_eq_left hi.le]
    exact storeCode_storesOk (by omega)
  have hword : storedWord (smallBuild (romOfWords storeCode))
      (storeCodeRun 11).hart.procs 0x80000000 = 0x13 := by
    decide +kernel
  have h := icache_coherent (fun _ _ h => h) hreach (a := 0x80000000)
    (Or.inr ⟨by decide, by decide⟩) (by decide) 0
  rw [hword] at h
  exact h

end Mlogv32.Cpu
