import Mlogv32.Cpu.Theorems.Icache
import Mlogv32.Cpu.Theorems.Width

/-!
# Coherence and the widths of the registers

RAM keeps the low 32 bits of what a store writes, and the icache gets all of it decoded. The two agree
as long as the registers that are stored hold words.
-/

namespace Mlogv32.Cpu
open Mlog Logic Isa

variable {cfg : PageConfig}

/-- The slot of every covered word is read back as the slow path decodes the word. -/
def IcacheCoherent (cfg : PageConfig) (s : Hart) : Prop :=
  ∀ a, Cached cfg s.etext a → a % 4 = 0 → ∀ imm,
    (readIcache (readProc s.procs (icacheSlot cfg a).1 (icacheSlot cfg a).2 .null).toNum).Same
      (slowFetch (storedWord cfg s.procs a) imm)

/-- The register that a store writes holds a word. -/
def StoresWords (m : Machine) : Event → Prop
  | .step =>
      match m.point with
      | .execute d _ rs2 => ∀ label, labels (d.opId + 192) = some label →
          label ∈ [.SB, .SH, .SW, .SC_W] → IsWord rs2
      | _ => True
  | _ => True

theorem storesWords_of_storesOk {m : Machine} {e : Event} (h : StoresOk cfg m e) :
    StoresWords m e := by
  cases e with
  | step =>
      unfold StoresWords
      cases hpoint : m.point with
      | execute d rs1 rs2 =>
          rw [StoresOk, hpoint] at h
          exact fun label hlabel => (h label hlabel).1
      | _ => trivial
  | _ => trivial

theorem storesOk_of_words {m : Machine} {e : Event} (hsw : SwMapped cfg m e)
    (hwords : StoresWords m e) : StoresOk cfg m e := by
  cases e with
  | step =>
      unfold StoresOk
      cases hpoint : m.point with
      | execute d rs1 rs2 =>
          rw [SwMapped, hpoint] at hsw
          rw [StoresWords, hpoint] at hwords
          exact fun label hlabel => ⟨hwords label hlabel, fun hl => hsw (hl ▸ hlabel)⟩
      | _ => trivial
  | _ => trivial

/-- Without a carry out of the address space or of the high half of a counter, only words are stored. -/
theorem Reaches.storesWords {m : Machine}
    (h : Reaches cfg (fun m e => SwMapped cfg m e ∧ NoCarry cfg m e) m) :
    Reaches cfg (fun m e => SwMapped cfg m e ∧ StoresWords m e) m := by
  refine (Reachable.invariant (I := fun m => WordMachine cfg m ∧
    Reaches cfg (fun m e => SwMapped cfg m e ∧ StoresWords m e) m) ?_ ?_ h).2
  · rintro m ⟨uarts, rfl⟩
    exact ⟨wordMachine_start cfg uarts, .init ⟨uarts, rfl⟩⟩
  · rintro m e ⟨hm, hreach⟩ ⟨hsw, hcarry⟩
    exact ⟨hm.apply e hsw hcarry, hreach.next ⟨hsw, storesWords_of_storesOk (hm.storesOk hsw)⟩⟩

/-- In every run whose stores meet mapped addresses and write words, the icache is coherent. Every run
without a carry out of the address space or of the high half of a counter is such a run. -/
theorem reaches_icacheCoherent (cfg : PageConfig) :
    (∀ m, Reaches cfg (fun m e => SwMapped cfg m e ∧ StoresWords m e) m →
      IcacheCoherent cfg m.hart) ∧
    ∀ m, Reaches cfg (fun m e => SwMapped cfg m e ∧ NoCarry cfg m e) m →
      Reaches cfg (fun m e => SwMapped cfg m e ∧ StoresWords m e) m := by
  refine ⟨fun m h a hcached halign imm => ?_, fun m => Reaches.storesWords⟩
  have h' : Reaches cfg (StoresOk cfg) m := h.mono fun _ _ hg => storesOk_of_words hg.1 hg.2
  obtain ⟨hs, hcoherent⟩ := h'.coherent fun _ _ hg => hg
  have ha : SlotWord cfg a := ⟨hcached.imp_left fun h => ⟨h.1, h.2.trans_le hs.hart.etext⟩, halign⟩
  exact (hcoherent.held a ha hcached).readIcache imm

theorem reaches_icacheCoherent_storeCode :
    storedWord (smallBuild (romOfWords storeCode)) (storeCodeRun 11).hart.procs 0x80000000 = 0x13 ∧
      IcacheCoherent (smallBuild (romOfWords storeCode)) (storeCodeRun 11).hart := by
  refine ⟨by decide +kernel, (reaches_icacheCoherent _).1 _ ?_⟩
  refine Reachable.run (.init ⟨_, rfl⟩) _ fun i hi => ?_
  rw [List.length_replicate] at hi
  rw [List.take_replicate, List.getElem_replicate, min_eq_left hi.le]
  have hok := storeCode_storesOk (hi.trans (by decide))
  exact ⟨swMapped_of_storesOk hok, storesWords_of_storesOk hok⟩

/-! ## A store of more than a word -/

/-- `addi x1, x0, -1`, writes of x1 to minstreth and to minstret, `lui x2, 0x80000`,
`csrrs x3, minstreth, x0`, `ori x3, x3, 0x93` and `sw x3, 0(x2)`. -/
def storeMinstreth : List Nat :=
  [0xfff00093, 0xb8209073, 0xb0209073, 0x80000137, 0xb82021f3, 0x0931e193, 0x00312023]

/-- The machine after `n` steps of `storeMinstreth`. -/
def storeMinstrethRun (n : Nat) : Machine :=
  (Machine.start (smallBuild (romOfWords storeMinstreth)) fun _ _ => 0).run
    (smallBuild (romOfWords storeMinstreth)) (List.replicate n .step)

/-- The worker is not about to execute a store, or the store of M-mode goes to a mapped address. -/
def Machine.swMapped (cfg : PageConfig) (m : Machine) : Bool :=
  m.point.isStoreFree || match m.point with
    | .execute d rs1 _ => decide (¬m.hart.effectivePrivilegeMode < 0b11 ∧
        opMod (effectiveAddress rs1 d.imm) 4 = 0 ∧ Mapped cfg m.hart (effectiveAddress rs1 d.imm))
    | _ => true

theorem swMapped_of_check {m : Machine} (h : m.swMapped cfg = true) : SwMapped cfg m .step := by
  rcases Bool.or_eq_true_iff.mp h with hfree | hmapped
  · exact swMapped_of_storesOk (storesOk_of_isStoreFree .step hfree)
  unfold SwMapped
  cases hpoint : m.point with
  | execute d rs1 rs2 =>
      rw [hpoint] at hmapped
      obtain ⟨hmode, halign, hmapped⟩ := of_decide_eq_true hmapped
      intro _ address s' hx
      rw [setupLoadAndStoreValue_machine hmode halign] at hx
      obtain ⟨rfl, -⟩ := EStateM.Result.ok.inj hx
      exact hmapped
  | _ => trivial

/-- minstreth has counted to 2^32, and x3 holds 2^32 + 0x93. RAM gets `addi x1, x0, 0`, and the icache
`addi x1, x0, 0x1000`. -/
theorem storeMinstreth_breaks_icache :
    ∃ m, Reaches (smallBuild (romOfWords storeMinstreth))
        (SwMapped (smallBuild (romOfWords storeMinstreth))) m ∧
      m.point = .main ∧ ¬IcacheCoherent (smallBuild (romOfWords storeMinstreth)) m.hart := by
  have hmapped : ∀ i < 23,
      (storeMinstrethRun i).swMapped (smallBuild (romOfWords storeMinstreth)) = true := by
    decide +kernel
  refine ⟨storeMinstrethRun 23, ?_, by decide +kernel, fun h => ?_⟩
  · refine Reachable.run (.init ⟨_, rfl⟩) _ fun i hi => ?_
    rw [List.length_replicate] at hi
    rw [List.take_replicate, List.getElem_replicate, min_eq_left hi.le]
    exact swMapped_of_check (hmapped i hi)
  · have himm := (h 0x80000000 (Or.inr ⟨by decide, by decide⟩) (by decide) 0).imm
      (by decide +kernel) (by decide +kernel)
    exact absurd himm (by decide +kernel)

end Mlogv32.Cpu
