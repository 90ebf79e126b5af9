import Mlogv32.Cpu.Lemmas.System
import Mlogv32.Cpu.Theorems.Decode
import Mlogv32.Cpu.Theorems.Mlogsys

/-!
# Decoded words

The icache has a slot for each word of the first part of ROM and of RAM. A slot is held if it has
what `decode` makes of the word that is stored at its address, whatever the decoder found in `imm`.
-/

namespace Mlogv32.Cpu
open Mlog Logic Isa

variable {cfg : PageConfig} {procs procs' : Procs} {s s' : Hart}

/-! ## Slots -/

/-- A word that the icache has a slot for. -/
def SlotWord (cfg : PageConfig) (a : Int) : Prop := Cached cfg cfg.programRomIcacheSize a ∧ a % 4 = 0

/-- The cell of the slot of an address. -/
def slotCell (cfg : PageConfig) (a : Int) : Int :=
  (if a < ramStart then (cfg.ramSize : Int) else cfg.ramIcacheOffset) + a

/-- What the slot of an address has. -/
def slotValue (cfg : PageConfig) (procs : Procs) (a : Int) : Value := cell cfg procs (slotCell cfg a)

/-- The word at an address in ROM or RAM. -/
def storedWord (cfg : PageConfig) (procs : Procs) (a : Int) : Int :=
  if a < cfg.romSize then loadRomWordUnchecked cfg a else loadRamWordUnchecked cfg procs a

/-- A slot that was never written counts as the slot of the word 0. -/
def Held (cfg : PageConfig) (procs : Procs) (a : Int) : Prop :=
  (∃ imm, slotValue cfg procs a = .num (decode (storedWord cfg procs a) imm).payload) ∨
    (slotValue cfg procs a = .null ∧ storedWord cfg procs a = 0)

theorem PageConfig.programRomIcacheSize_le_romSize (cfg : PageConfig) :
    cfg.programRomIcacheSize ≤ cfg.romSize := by
  unfold PageConfig.programRomIcacheSize PageConfig.romSize
  omega

theorem PageConfig.romSize_le_ramStart (cfg : PageConfig) : cfg.romSize ≤ ramStart := by
  have := cfg.romSize_le
  unfold PageConfig.romSize ramStart
  omega

theorem PageConfig.icacheEnd_le (cfg : PageConfig) : cfg.icacheEnd ≤ cfg.ramEnd := by
  have := cfg.romSize_le
  unfold PageConfig.icacheEnd PageConfig.ramEnd ramStart
  split <;> omega

theorem SlotWord.cell {a : Int} (h : SlotWord cfg a) : IcacheCell cfg (slotCell cfg a) := by
  obtain ⟨b, hb, -, rfl⟩ := icacheSlot_cell cfg h.1
  exact hb

theorem SlotWord.cases {a : Int} (h : SlotWord cfg a) :
    (0 ≤ a ∧ a < cfg.programRomIcacheSize ∧ a < cfg.romSize ∧ a < ramStart) ∨
      (InRam cfg a ∧ a < cfg.icacheEnd ∧ ¬a < cfg.romSize) := by
  have hrom := cfg.programRomIcacheSize_le_romSize
  have hstart := cfg.romSize_le_ramStart
  have hend := cfg.icacheEnd_le
  rcases h.1 with h | h
  · exact Or.inl ⟨h.1, h.2, by omega, by omega⟩
  · exact Or.inr ⟨⟨h.1, by omega⟩, h.2, by omega⟩

theorem slotCell_inj {a b : Int} (ha : SlotWord cfg a) (hb : SlotWord cfg b)
    (h : slotCell cfg a / 4 = slotCell cfg b / 4) : a = b := by
  have hram := cfg.ramSize_aligned
  have hprogram := cfg.programRomSize_aligned
  have hsize : cfg.programRomIcacheSize ≤ cfg.programRomSize := min_le_left _ _
  have ha4 := ha.2
  have hb4 := hb.2
  unfold slotCell PageConfig.ramIcacheOffset ramStart at h
  rcases ha.cases with ⟨ha0, ha1, -, ha2⟩ | ⟨ha0, -⟩ <;> rcases hb.cases with
    ⟨hb0, hb1, -, hb2⟩ | ⟨hb0, -⟩
  · unfold ramStart at ha2 hb2
    omega
  · unfold ramStart at ha2
    unfold InRam ramStart at hb0
    omega
  · unfold ramStart at hb2
    unfold InRam ramStart at ha0
    omega
  · unfold InRam ramStart at ha0 hb0
    omega

/-! ## Changes -/

/-- Only the cells of RAM and of the icache count. -/
theorem Held.congr {a : Int} (h : Held cfg procs a) (ha : SlotWord cfg a)
    (hcells : ∀ b, InCells cfg b → cell cfg procs' b = cell cfg procs b) : Held cfg procs' a := by
  have hslot : slotValue cfg procs' a = slotValue cfg procs a := hcells _ ha.cell.inCells
  have hword : storedWord cfg procs' a = storedWord cfg procs a := by
    unfold storedWord
    rcases ha.cases with ⟨-, -, hrom, -⟩ | ⟨hram, -, hrom⟩
    · rw [if_pos hrom, if_pos hrom]
    · have hcell : InCells cfg (a - ramStart) := by
        obtain ⟨h0, h1⟩ := hram
        unfold PageConfig.ramEnd at h1
        exact ⟨by omega, by omega⟩
      rw [if_neg hrom, if_neg hrom, loadRamWordUnchecked_eq, loadRamWordUnchecked_eq, hcells _ hcell]
  unfold Held
  rw [hslot, hword]
  exact h

theorem cell_of_ne_csrs (hprocs : ∀ t, t ≠ cfg.csrs → procs' t = procs t) {b : Int}
    (hb : InCells cfg b) :
    cell cfg procs' b = cell cfg procs b := by
  unfold cell readProc
  rw [hprocs _ hb.ne_csrs]

theorem cell_decodeToIcache (s : Hart) {a : Int} (ha : SlotWord cfg a) (w : Int) {b : Int} (hb : 0 ≤ b) :
    cell cfg (decodeToIcache cfg s a w).procs b =
      if b / 4 = slotCell cfg a / 4 then .num (decode w s.imm).payload else cell cfg s.procs b :=
  cell_writeCell cfg s.procs (.num (decode w s.imm).payload) ha.cell.inCells.1 hb

theorem storedWord_decodeToIcache (s : Hart) {a b : Int} (ha : SlotWord cfg a) (hb : SlotWord cfg b)
    (w : Int) :
    storedWord cfg (decodeToIcache cfg s a w).procs b = storedWord cfg s.procs b := by
  unfold storedWord
  rcases hb.cases with ⟨-, -, hrom, -⟩ | ⟨hram, -, hrom⟩
  · rw [if_pos hrom, if_pos hrom]
  · have hslot := ha.cell.1
    have hsize := cfg.ramSize_aligned
    obtain ⟨h0, h1⟩ := hram
    unfold PageConfig.ramEnd at h1
    rw [if_neg hrom, if_neg hrom, loadRamWordUnchecked_eq, loadRamWordUnchecked_eq,
      cell_decodeToIcache s ha w (by omega), if_neg (by omega)]

/-- A slot is held once the word of its address was decoded to it, and the others stay as they are. -/
theorem held_decodeToIcache (s : Hart) {a b : Int} (ha : SlotWord cfg a) (hb : SlotWord cfg b) {w : Int}
    (hw : storedWord cfg s.procs a = w) (h : b ≠ a → Held cfg s.procs b) :
    Held cfg (decodeToIcache cfg s a w).procs b := by
  have hslot := cell_decodeToIcache s ha w hb.cell.inCells.1
  have hword := storedWord_decodeToIcache s ha hb w
  by_cases hba : b = a
  · subst hba
    rw [if_pos rfl] at hslot
    exact Or.inl ⟨s.imm, by rw [slotValue, hslot, hword, hw]⟩
  · rw [if_neg fun heq => hba (slotCell_inj hb ha heq)] at hslot
    unfold Held slotValue
    rw [hslot, hword]
    exact h hba

/-- A store to RAM decodes the word that it writes. -/
theorem held_storedRam (s : Hart) {address value b : Int} (ha : InRam cfg address ∧ address % 4 = 0)
    (hvalue : IsWord value) (hb : SlotWord cfg b) (h : Held cfg s.procs b) :
    Held cfg (storedRam cfg s address value).procs b := by
  obtain ⟨hram, halign⟩ := ha
  have hstart := cfg.romSize_le_ramStart
  have h0 := hram.1
  have h1 := hram.2
  unfold PageConfig.ramEnd at h1
  have hstored : storedWord cfg
      (writeCell cfg s.procs (address - ramStart) (.num (swapEndianness value))) address =
        value := by
    rw [storedWord, if_neg (by omega), loadRamWordUnchecked_eq,
      cell_writeCell cfg _ _ (by omega) (by omega), if_pos rfl]
    exact swapEndianness_swapEndianness hvalue.1 hvalue.2
  have hother (hne : b ≠ address) :
      Held cfg (writeCell cfg s.procs (address - ramStart) (.num (swapEndianness value))) b := by
    have hsize := cfg.ramSize_aligned
    have hcell := hb.cell
    have halign' := hb.2
    have hslot : slotValue cfg
      (writeCell cfg s.procs (address - ramStart) (.num (swapEndianness value))) b =
        slotValue cfg s.procs b := by
      rw [slotValue, cell_writeCell cfg _ _ (by omega) hcell.inCells.1,
        if_neg (by have := hcell.1; omega), slotValue]
    have hword : storedWord cfg
      (writeCell cfg s.procs (address - ramStart) (.num (swapEndianness value))) b =
        storedWord cfg s.procs b := by
      unfold storedWord
      rcases hb.cases with ⟨-, -, hrom, -⟩ | ⟨hbram, -, hrom⟩
      · rw [if_pos hrom, if_pos hrom]
      · have hlow := hbram.1
        unfold ramStart at hlow h0
        rw [if_neg hrom, if_neg hrom, loadRamWordUnchecked_eq, loadRamWordUnchecked_eq,
          cell_writeCell cfg _ _ (by unfold ramStart; omega) (by unfold ramStart; omega),
          if_neg (by unfold ramStart; omega)]
    unfold Held
    rw [hslot, hword]
    exact h
  unfold storedRam
  split
  · rename_i hic
    have hslotWord : SlotWord cfg address := ⟨Or.inr ⟨hram.1, hic⟩, halign⟩
    exact held_decodeToIcache
      { s with procs := writeCell cfg s.procs (address - ramStart) (.num (swapEndianness value)) }
      hslotWord hb hstored hother
  · rename_i hic
    refine hother fun heq => hic ?_
    rcases hb.cases with ⟨-, -, -, hlow⟩ | ⟨-, hlt, -⟩
    · omega
    · omega

/-! ## Reading a slot -/

/-- Two fetched instructions are the same as far as their handler looks at them: an illegal one has
no fields, and `imm` is of no account if the instruction has none. -/
structure Fetched.Same (d d' : Fetched) : Prop where
  opId : d.opId = d'.opId
  registers : d'.opId ≠ 0 → d.rdId = d'.rdId ∧ d.rs1Id = d'.rs1Id ∧ d.rs2Id = d'.rs2Id
  imm : d'.opId ≠ 0 → hasImm d'.opId = true → d.imm = d'.imm

theorem storedWord_isWord (cfg : PageConfig) (procs : Procs) (a : Int) :
    IsWord (storedWord cfg procs a) := by
  unfold storedWord
  split
  · exact loadRomWordUnchecked_word cfg a
  · exact swapEndianness_word _

/-- A held slot is read back as the slow path decodes the word. -/
theorem Held.readIcache {a : Int} (h : Held cfg procs a) (imm : Int) :
    (Cpu.readIcache (slotValue cfg procs a).toNum).Same (slowFetch (storedWord cfg procs a) imm) := by
  obtain ⟨h0, hlt⟩ := storedWord_isWord cfg procs a
  obtain ⟨n, hn⟩ := Int.eq_ofNat_of_zero_le h0
  rcases h with ⟨imm', h⟩ | ⟨h, hzero⟩
  · obtain ⟨hop, hfields⟩ := unpack_agree (decode_wellFormed (BitVec.ofNat 32 n) imm')
      (decode_agree (BitVec.ofNat 32 n) imm' imm)
    have htoNat : ((BitVec.ofNat 32 n).toNat : Int) = storedWord cfg procs a := by
      rw [BitVec.toNat_ofNat, Nat.mod_eq_of_lt (by omega), hn]
    rw [htoNat] at hop hfields
    rw [h]
    exact ⟨hop, fun hne => ⟨(hfields hne).1, (hfields hne).2.1, (hfields hne).2.2.1⟩,
      fun hne => (hfields hne).2.2.2⟩
  · have hop : (slowFetch 0 imm).opId = 0 := by
      rw [slowFetch, decode_compressed (by decide) imm]
      rfl
    rw [h, hzero]
    exact ⟨(show (Cpu.readIcache 0).opId = 0 by decide).trans hop.symm, fun hne => absurd hop hne,
      fun hne => absurd hop hne⟩

/-- The slow path makes the same of a word whatever it finds in `imm`. -/
theorem slowFetch_same {w : Int} (hw : IsWord w) (imm imm' : Int) :
    (slowFetch w imm).Same (slowFetch w imm') := by
  obtain ⟨h0, hlt⟩ := hw
  obtain ⟨n, rfl⟩ := Int.eq_ofNat_of_zero_le h0
  have hagree := decode_agree (BitVec.ofNat 32 n) imm imm'
  rw [BitVec.toNat_ofNat, Nat.mod_eq_of_lt (by omega)] at hagree
  refine ⟨hagree.opId, fun _ => ?_, fun _ himm => ?_⟩
  · simp only [slowFetch, unpackRegisters, hagree.result, and_self]
  · have hop : (decode n imm).opId = (decode n imm').opId := hagree.opId
    exact hagree.imm (hop ▸ himm)

/-- An instruction is the one at an address: what the slow path makes of the word there, and the run
of the instruction that the word encodes, if there is one. -/
structure FromMemory (cfg : PageConfig) (procs : Procs) (a : Int) (d : Fetched) : Prop where
  same : ∀ imm, d.Same (slowFetch (storedWord cfg procs a) imm)
  runs : ∀ i : Instr, storedWord cfg procs a = i.encode.toNat → d.Runs i

theorem slowFetch_fromMemory (cfg : PageConfig) (procs : Procs) (a imm : Int) :
    FromMemory cfg procs a (slowFetch (storedWord cfg procs a) imm) :=
  ⟨slowFetch_same (storedWord_isWord cfg procs a) imm,
    fun i hi => by rw [hi]; exact slowFetch_runs i imm⟩

theorem Held.fromMemory {a : Int} (h : Held cfg procs a) :
    FromMemory cfg procs a (Cpu.readIcache (slotValue cfg procs a).toNum) := by
  refine ⟨h.readIcache, fun i hi => ?_⟩
  rcases h with ⟨imm, h⟩ | ⟨-, hzero⟩
  · have hruns := readIcache_runs i imm
    rw [toDouble_of_exact (decode_wellFormed i.encode imm).exact, ← hi] at hruns
    rw [h]
    exact hruns
  · -- the word 0 is not an instruction
    obtain ⟨_, _, _, hof⟩ := decode_encode i 0
    have hop : (decode 0 0).opId = 0 := by
      rw [decode_compressed (by decide) 0]
      rfl
    rw [← hi, hzero] at hof
    exact absurd hop hof.opId_ne

end Mlogv32.Cpu
