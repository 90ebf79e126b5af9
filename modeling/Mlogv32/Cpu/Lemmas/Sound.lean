import Mlogv32.Cpu.Lemmas.Fetched
import Mlogv32.Cpu.Lemmas.Memory
import Mlogv32.Cpu.Lemmas.Trap

/-!
# Sound harts

What the worker relies on and the hart never loses if no store leaves the memory map: the tables of
the controller, the slots of the icache, the cursor and the addresses of instructions.
-/

namespace Mlogv32.Cpu
open Mlog Logic Isa

variable {cfg : PageConfig} {s : Hart}

/-! ## The cursor -/

/-- A byte offset, above the cells of RAM, of a slot of the icache. -/
def IcacheCell (cfg : PageConfig) (a : Int) : Prop := cfg.ramSize ≤ a ∧ a < cfg.ramSize + cfg.icacheSize

/-- An address of an instruction. -/
def CodeAddress (a : Int) : Prop := 0 ≤ a ∧ a % 4 = 0

/-- The cursor is `null`, or the variable of a slot. -/
def CursorOk (cfg : PageConfig) (ram : Tile) (v : Value) : Prop :=
  v = .null ∨ ∃ a, IcacheCell cfg a ∧ a % 4 = 0 ∧ accessRamRaw cfg a = (ram, v)

theorem IcacheCell.inCells {a : Int} (h : IcacheCell cfg a) : InCells cfg a :=
  ⟨(Int.natCast_nonneg _).trans h.1, h.2⟩

/-- The rest of the page of a slot belongs to the icache. -/
theorem IcacheCell.page {a b : Int} (h : IcacheCell cfg a) (hab : b / 4096 = a / 4096) :
    IcacheCell cfg b := by
  have hram := cfg.ramSize_aligned
  have hicache := cfg.icacheSize_aligned
  unfold IcacheCell at h ⊢
  omega

/-- The page that `cursorPage` finds from a name is the page of the variable. -/
theorem cursorPage_eq {i : Nat} (h : i < 4096) : cursorPage i = i / 1024 := by
  have htable : ∀ k : Fin 64, opAnd (variable0ToPageOffset (variableNameChars.getD k 0)) 0b11 =
      k / 16 := by
    decide
  have hk := htable ⟨i / 64, by omega⟩
  dsimp only at hk
  rw [cursorPage, ramVar, hk]
  omega

/-- The cursor after a fetch: `null` at the end of a page, and the next slot elsewhere. -/
theorem successor_slot {a : Int} {ram : Tile} {i : Nat} (ha : IcacheCell cfg a) (halign : a % 4 = 0)
    (h : accessRamRaw cfg a = (ram, .var i)) :
    (successor i = .null ∧ (a + 4) % 4096 = 0) ∨
      ((a + 4) % 4096 ≠ 0 ∧ IcacheCell cfg (a + 4) ∧ accessRamRaw cfg (a + 4) = (ram, successor i)) := by
  have hpos := ha.inCells.1
  rw [accessRamRaw_eq cfg hpos, Prod.mk.injEq, Value.var.injEq] at h
  obtain ⟨rfl, rfl⟩ := h
  by_cases hend : (a + 4) % 4096 = 0
  · exact Or.inl ⟨if_neg (by omega), hend⟩
  · refine Or.inr ⟨hend, ha.page (by omega), ?_⟩
    rw [accessRamRaw_eq cfg (by omega), successor, if_pos (by omega),
      show (a + 4) / 4 / 4096 = a / 4 / 4096 by omega,
      show ((a + 4) / 4 % 4096).toNat = (a / 4 % 4096).toNat + 1 by omega]

theorem jumpCursor_slot {a nextPc : Int} {ram : Tile} {i : Nat} (ha : IcacheCell cfg a)
    (h : accessRamRaw cfg a = (ram, .var i)) :
    IcacheCell cfg (a / 4096 * 4096 + nextPc % 4096) ∧
      accessRamRaw cfg (a / 4096 * 4096 + nextPc % 4096) = (ram, jumpCursor i nextPc) := by
  have hpos := ha.inCells.1
  have hlow : opAnd nextPc 0xfff = nextPc % 4096 := opAnd_low nextPc 12 (by decide)
  rw [accessRamRaw_eq cfg hpos, Prod.mk.injEq, Value.var.injEq] at h
  obtain ⟨rfl, rfl⟩ := h
  refine ⟨ha.page (by omega), ?_⟩
  simp only [jumpCursor, hlow]
  rw [cursorPage_eq (by omega), opIdiv_eq _ (by decide), lookupVariable_eq (by omega) (by omega),
    accessRamRaw_eq cfg (by omega), Prod.mk.injEq, Value.var.injEq]
  exact ⟨by congr 2; omega, by omega⟩

/-! ## Sound states -/

structure Sound (cfg : PageConfig) (s : Hart) : Prop where
  incr : ∀ i, s.procs cfg.incr i = successor i
  csrLabels : ∀ i, s.procs cfg.csrLabels i = initCsrLabels i
  slots : ∀ a, IcacheCell cfg a → SlotOk (cell cfg s.procs a)
  cursor : CursorOk cfg s.icacheRam s.icacheVar
  etext : s.etext ≤ cfg.programRomIcacheSize
  pc : CodeAddress s.pc
  /-- The addresses that a trap or a return jumps to. -/
  vectors : ∀ n ∈ [mtvecCsr, stvecCsr, mepcCsr, sepcCsr], CodeAddress (s.csr cfg n)

theorem CursorOk.var {ram : Tile} {v : Value} (h : CursorOk cfg ram v) :
    v = .null ∨ ∃ i, v = .var i := by
  rcases h with h | ⟨a, ha, -, h⟩
  · exact Or.inl h
  · rw [accessRamRaw_eq cfg ha.inCells.1, Prod.mk.injEq] at h
    exact Or.inr ⟨_, h.2.symm⟩

/-- A change outside the memory processors and the tables, that keeps the addresses. -/
theorem Sound.of_csrs {s' : Hart} (h : Sound cfg s)
    (hprocs : ∀ t, t ≠ cfg.csrs → s'.procs t = s.procs t)
    (hcursor : CursorOk cfg s'.icacheRam s'.icacheVar)
    (hetext : s'.etext ≤ cfg.programRomIcacheSize) (hpc : CodeAddress s'.pc)
    (hvectors : ∀ n ∈ [mtvecCsr, stvecCsr, mepcCsr, sepcCsr], CodeAddress (s'.csr cfg n)) :
    Sound cfg s' where
  incr i := by rw [hprocs _ cfg.csrs_ne_incr.symm, h.incr]
  csrLabels i := by rw [hprocs _ cfg.csrs_ne_csrLabels.symm, h.csrLabels]
  slots a ha := by
    have hcell : cell cfg s'.procs a = cell cfg s.procs a := by
      unfold cell readProc
      rw [hprocs _ ha.inCells.ne_csrs]
    rw [hcell]
    exact h.slots a ha
  cursor := hcursor
  etext := hetext
  pc := hpc
  vectors := hvectors

/-- A change of variables of the worker only. -/
theorem Sound.of_procs {s' : Hart} (h : Sound cfg s) (hprocs : s'.procs = s.procs)
    (hcursor : CursorOk cfg s'.icacheRam s'.icacheVar) (hetext : s'.etext = s.etext)
    (hpc : CodeAddress s'.pc) :
    Sound cfg s' :=
  h.of_csrs (fun t _ => by rw [hprocs]) hcursor (hetext ▸ h.etext) hpc fun n hn => by
    have := h.vectors n hn
    rwa [Hart.csr, hprocs]

theorem LoadFrame.sound {s' : Hart} (h : LoadFrame s s') (hs : Sound cfg s) : Sound cfg s' := by
  obtain ⟨_, _, _, rfl, _⟩ := h
  exact hs.of_procs rfl hs.cursor rfl hs.pc

/-! ## Writes -/

/-- A write to a cell of RAM, or of a decoded word to a slot. -/
theorem Sound.writeCell (h : Sound cfg s) {a : Int} {x : Value} (ha : InCells cfg a)
    (hx : IcacheCell cfg a → SlotOk x) : Sound cfg { s with procs := writeCell cfg s.procs a x } where
  incr i := (writeCell_of_ne s.procs x ha.ne_incr i).trans (h.incr i)
  csrLabels i := (writeCell_of_ne s.procs x ha.ne_csrLabels i).trans (h.csrLabels i)
  slots b hb := by
    dsimp only
    rw [cell_writeCell cfg s.procs x ha.1 hb.inCells.1]
    split
    · rename_i hab
      have hram := cfg.ramSize_aligned
      have hicache := cfg.icacheSize_aligned
      refine hx ⟨?_, ha.2⟩
      have := hb.1
      omega
    · exact h.slots b hb
  cursor := h.cursor
  etext := h.etext
  pc := h.pc
  vectors n hn := by
    have hcsr : Hart.csr cfg { s with procs := Cpu.writeCell cfg s.procs a x } n = s.csr cfg n :=
      congrArg Value.toNum (writeCell_of_ne s.procs x ha.ne_csrs n)
    rw [hcsr]
    exact h.vectors n hn

/-- The word that `decode` sees is a word. -/
theorem slotOk_decode {w : Int} (hw : IsWord w) (imm : Int) : SlotOk (.num (decode w imm).payload) := by
  obtain ⟨n, rfl⟩ := Int.eq_ofNat_of_zero_le hw.1
  have hlt := hw.2
  refine Or.inr ⟨BitVec.ofNat 32 n, imm, ?_⟩
  rw [BitVec.toNat_ofNat, Nat.mod_eq_of_lt (by omega)]

/-- The slot of an address in ROM or RAM. -/
theorem icacheSlot_cell (cfg : PageConfig) {a : Int}
    (ha : (0 ≤ a ∧ a < cfg.programRomIcacheSize) ∨ (ramStart ≤ a ∧ a < cfg.icacheEnd)) :
    ∃ b, IcacheCell cfg b ∧ icacheSlot cfg a = accessRamRaw cfg b ∧
      b = (if a < ramStart then (cfg.ramSize : Int) else cfg.ramIcacheOffset) + a := by
  rcases ha with ⟨h0, h1⟩ | ⟨h0, h1⟩
  · have hrom := cfg.romSize_le
    have hlt : a < ramStart := by
      unfold PageConfig.programRomIcacheSize at h1
      unfold ramStart
      omega
    refine ⟨_, ?_, rfl, rfl⟩
    rw [if_pos hlt]
    unfold PageConfig.programRomIcacheSize at h1
    exact ⟨by omega, by omega⟩
  · refine ⟨_, ?_, rfl, rfl⟩
    rw [if_neg (not_lt.mpr h0)]
    exact icacheOffset_ram h0 h1

/-- Decoding a word to its slot. -/
theorem Sound.decodeToIcache (h : Sound cfg s) {a w : Int} (hw : IsWord w)
    (ha : (0 ≤ a ∧ a < cfg.programRomIcacheSize) ∨ (ramStart ≤ a ∧ a < cfg.icacheEnd)) :
    Sound cfg (decodeToIcache cfg s a w) := by
  obtain ⟨b, hb, hslot, -⟩ := icacheSlot_cell cfg ha
  have hs := h.writeCell (x := .num (decode w s.imm).payload) hb.inCells fun _ => slotOk_decode hw s.imm
  unfold Cpu.decodeToIcache
  rw [hslot]
  exact hs.of_procs rfl hs.cursor rfl hs.pc

theorem Sound.storedRam (h : Sound cfg s) {address value : Int} (ha : InRam cfg address)
    (hvalue : IsWord value) :
    Sound cfg (storedRam cfg s address value) := by
  have hram : InCells cfg (address - ramStart) := by
    obtain ⟨h0, h1⟩ := ha
    unfold PageConfig.ramEnd at h1
    exact ⟨by omega, by omega⟩
  have hnot : ¬IcacheCell cfg (address - ramStart) := by
    intro hcell
    have := ha.2
    have := hcell.1
    unfold PageConfig.ramEnd at *
    omega
  have hs := h.writeCell (x := .num (swapEndianness value)) hram fun hcell => absurd hcell hnot
  unfold Cpu.storedRam
  dsimp only
  split
  · rename_i hic
    exact hs.decodeToIcache hvalue (Or.inr ⟨ha.1, hic⟩)
  · exact hs

theorem writeProc_var_self (procs : Procs) (t : Tile) (i : Nat) (x : Value) :
    writeProc procs t (.var i) x t i = x :=
  if_pos ⟨rfl, rfl⟩

/-- A write to a CSR other than those that hold addresses, or of an address. -/
theorem Sound.writeCsr (h : Sound cfg s) {n : Nat} {x : Int}
    (hx : n ∈ [mtvecCsr, stvecCsr, mepcCsr, sepcCsr] → CodeAddress x) :
    Sound cfg (s.writeCsr cfg (.var n) x) := by
  refine h.of_csrs (fun t ht => writeProc_of_ne s.procs (.var n) (.num x) ht) h.cursor
    h.etext h.pc fun m hm => ?_
  by_cases hmn : m = n
  · subst hmn
    have hcsr : (s.writeCsr cfg (.var m) x).csr cfg m = x :=
      congrArg Value.toNum (writeProc_var_self s.procs cfg.csrs m (.num x))
    rw [hcsr]
    exact hx hm
  · have hcsr : (s.writeCsr cfg (.var n) x).csr cfg m = s.csr cfg m :=
      congrArg Value.toNum (if_neg fun h => hmn h.2)
    rw [hcsr]
    exact h.vectors m hm

end Mlogv32.Cpu
