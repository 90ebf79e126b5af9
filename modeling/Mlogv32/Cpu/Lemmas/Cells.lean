import Mlogv32.Cpu.Controller

/-!
# Cells of the RAM processors

RAM and the icache are one array of cells, four bytes each. `access_ram_raw` sends a byte offset to
the processor and the variable of its cell, and different cells to different variables.
-/

namespace Mlogv32.Cpu
open Mlog

/-! ## The variable of a cell -/

theorem lookupVariable_eq {n : Int} (h0 : 0 ≤ n) (h : n < 4096) : lookupVariable n = .var n.toNat := by
  unfold lookupVariable lookupProc lookupProcSize ramProcVars
  rw [opIdiv_eq _ (by decide), opMod_eq h0 (by decide)]
  dsimp only
  rw [if_pos (by omega), Int.ediv_mul_add_emod]

theorem accessRamRaw_eq (cfg : PageConfig) {a : Int} (ha : 0 ≤ a) :
    accessRamRaw cfg a = (cfg.tile (a / 4 / 4096 + cfg.ramStartProc), .var (a / 4 % 4096).toNat) := by
  simp only [accessRamRaw, ramProcVars]
  rw [opIdiv_eq a (by decide), opIdiv_eq _ (by decide), opMod_eq (by omega) (by decide),
    lookupVariable_eq (by omega) (by omega)]

theorem accessRamRaw_fst (cfg : PageConfig) {a : Int} (ha : 0 ≤ a) :
    (accessRamRaw cfg a).1 = cfg.tile (a / 4 / 4096 + cfg.ramStartProc) := by
  rw [accessRamRaw_eq cfg ha]

theorem PageConfig.tile_inj (cfg : PageConfig) {i j : Int} (hi : 0 ≤ i) (hj : 0 ≤ j)
    (h : cfg.tile i = cfg.tile j) : i = j := by
  have hw : (0 : Int) < cfg.memoryWidth := by exact_mod_cast cfg.memoryWidth_pos
  simp only [PageConfig.tile, procTile, Prod.mk.injEq, opMod_eq hi hw, opMod_eq hj hw,
    opIdiv_eq _ (le_of_lt hw)] at h
  have hmod : i % cfg.memoryWidth = j % cfg.memoryWidth := by omega
  have hdiv : i / cfg.memoryWidth = j / cfg.memoryWidth := by omega
  rw [← Int.emod_add_mul_ediv i cfg.memoryWidth, ← Int.emod_add_mul_ediv j cfg.memoryWidth, hmod, hdiv]

theorem PageConfig.ramStartProc_eq (cfg : PageConfig) : cfg.ramStartProc = cfg.romSize / 16384 := by
  unfold PageConfig.ramStartProc romProcBytes
  exact opIdiv_eq _ (by decide)

theorem PageConfig.ramStartProc_nonneg (cfg : PageConfig) : 0 ≤ cfg.ramStartProc := by
  have h := cfg.ramStartProc_eq
  unfold PageConfig.romSize at h
  omega

theorem accessRamRaw_inj (cfg : PageConfig) {a b : Int} (ha : 0 ≤ a) (hb : 0 ≤ b)
    (h : accessRamRaw cfg a = accessRamRaw cfg b) : a / 4 = b / 4 := by
  have hproc := cfg.ramStartProc_nonneg
  rw [accessRamRaw_eq cfg ha, accessRamRaw_eq cfg hb, Prod.mk.injEq, Value.var.injEq] at h
  have htile := cfg.tile_inj (by omega) (by omega) h.1
  omega

/-! ## Other processors -/

/-- The part of the memory processors that RAM and the icache use. -/
def InCells (cfg : PageConfig) (a : Int) : Prop := 0 ≤ a ∧ a < cfg.ramSize + cfg.icacheSize

theorem InCells.proc {cfg : PageConfig} {a : Int} (h : InCells cfg a) :
    cfg.romSize / 16384 ≤ a / 4 / 4096 + cfg.ramStartProc ∧
    (a / 4 / 4096 + cfg.ramStartProc - cfg.romSize / 16384) * 16384 < cfg.ramSize + cfg.icacheSize := by
  obtain ⟨h0, h1⟩ := h
  rw [cfg.ramStartProc_eq]
  omega

theorem InCells.ne_csrs {cfg : PageConfig} {a : Int} (h : InCells cfg a) :
    (accessRamRaw cfg a).1 ≠ cfg.csrs := by
  rw [accessRamRaw_fst cfg h.1]
  exact cfg.csrs_ne _ h.proc.1 h.proc.2

theorem InCells.ne_incr {cfg : PageConfig} {a : Int} (h : InCells cfg a) :
    (accessRamRaw cfg a).1 ≠ cfg.incr := by
  rw [accessRamRaw_fst cfg h.1]
  exact cfg.incr_ne _ h.proc.1 h.proc.2

theorem InCells.ne_csrLabels {cfg : PageConfig} {a : Int} (h : InCells cfg a) :
    (accessRamRaw cfg a).1 ≠ cfg.csrLabels := by
  rw [accessRamRaw_fst cfg h.1]
  exact cfg.csrLabels_ne _ h.proc.1 h.proc.2

/-! ## Reads and writes -/

/-- The value of the cell at a byte offset. -/
def cell (cfg : PageConfig) (procs : Procs) (a : Int) : Value :=
  readProc procs (accessRamRaw cfg a).1 (accessRamRaw cfg a).2 .null

/-- The processors after a write to the cell at a byte offset. -/
def writeCell (cfg : PageConfig) (procs : Procs) (a : Int) (x : Value) : Procs :=
  writeProc procs (accessRamRaw cfg a).1 (accessRamRaw cfg a).2 x

theorem cell_writeCell (cfg : PageConfig) (procs : Procs) {a b : Int} (x : Value) (ha : 0 ≤ a)
    (hb : 0 ≤ b) :
    cell cfg (writeCell cfg procs a x) b = if b / 4 = a / 4 then x else cell cfg procs b := by
  have hinj := accessRamRaw_inj cfg hb ha
  unfold cell writeCell
  rw [accessRamRaw_eq cfg ha, accessRamRaw_eq cfg hb] at hinj ⊢
  simp only [readProc, writeProc]
  split
  · rename_i h
    rw [if_pos (hinj (by rw [h.1, h.2]))]
  · rename_i h
    rw [if_neg fun heq => h (by rw [heq]; exact ⟨rfl, rfl⟩)]

theorem writeCell_of_ne {cfg : PageConfig} (procs : Procs) {t : Tile} (x : Value) {a : Int}
    (h : (accessRamRaw cfg a).1 ≠ t) (i : Nat) : writeCell cfg procs a x t i = procs t i := by
  unfold writeCell
  cases (accessRamRaw cfg a).2 with
  | null => rfl
  | num n => rfl
  | var j => exact if_neg fun h' => h h'.1.symm

theorem resetHart_procs_of_ne {cfg : PageConfig} (s : Hart) (uartFlags : Int) {t : Tile}
    (h : t ≠ cfg.csrs) (i : Nat) : (resetHart cfg s uartFlags).procs t i = s.procs t i := by
  have hfold (ws : List (Nat × Value)) (procs : Procs) :
      ws.foldl (fun p w => writeProc p cfg.csrs (.var w.1) w.2) procs t i = procs t i := by
    induction ws generalizing procs with
    | nil => rfl
    | cons w ws ih => exact (ih _).trans (if_neg fun h' => h h'.1)
  exact hfold resetCsrs s.procs

/-! ## INCR -/

/-- The successor of a variable: the next one in its page. -/
def successor (i : Nat) : Value :=
  if i < 4096 ∧ (i + 1) % 1024 ≠ 0 then .var (i + 1) else .null

/-- The state of the loop after `k` iterations. -/
def incrAfter (k : Nat) : InitIncr :=
  { prevVariable := if k < 4096 then .var k else .null
    address := 4 * k + 4
    incr := fun i => if i < k then successor i else .null }

theorem initIncrStep_incrAfter {k : Nat} (h : k < 4096) :
    initIncrStep (incrAfter k) = incrAfter (k + 1) := by
  have hname : (if 4 * k + 4 < 16384 then Value.var ((4 * k + 4) / 4) else .null) =
      if k + 1 < 4096 then .var (k + 1) else .null := by
    split <;> split <;> first | rfl | (congr 1; omega)
  simp only [initIncrStep, incrAfter, if_pos h, hname]
  by_cases hpage : (4 * k + 4) % 4096 = 0
  · have hnull : successor k = .null := if_neg (by omega)
    simp only [if_pos hpage, InitIncr.mk.injEq, true_and]
    refine ⟨by ring, funext fun j => ?_⟩
    simp only [InitIncr.write]
    by_cases hj : j = k
    · simp [hj, hnull]
    · have hlt : j < k + 1 ↔ j < k := by omega
      simp [hj, hlt]
  · have hvar : successor k = .var (k + 1) := if_pos (by omega)
    have hk : k + 1 < 4096 := by omega
    simp only [if_neg hpage, InitIncr.mk.injEq, true_and]
    refine ⟨by ring, funext fun j => ?_⟩
    simp only [InitIncr.write, if_pos hk]
    by_cases hj : j = k
    · simp [hj, hvar]
    · have hlt : j < k + 1 ↔ j < k := by omega
      simp [hj, hlt]

theorem initIncr_eq (i : Nat) : initIncr i = successor i := by
  have hrun (k : Nat) (hk : k ≤ 4096) :
      initIncrStep^[k] { prevVariable := .var 0, address := 4, incr := fun _ => .null } =
        incrAfter k := by
    induction k with
    | zero => rfl
    | succ k ih => rw [Function.iterate_succ_apply', ih (by omega), initIncrStep_incrAfter (by omega)]
  rw [initIncr, hrun 4096 le_rfl]
  simp only [incrAfter, successor]
  split <;> simp_all

theorem start_incr (cfg : PageConfig) (uarts : Uarts) (i : Nat) :
    (Machine.start cfg uarts).hart.procs cfg.incr i = successor i := by
  have h := resetHart_procs_of_ne (Machine.powerOn cfg uarts).hart
    (updateUartFlags uarts 0 { uartRxInterruptPtrs := 0xffffffff, uartTxInterruptPtrs := 0xffffffff }).1
    cfg.csrs_ne_incr.symm i
  refine h.trans ?_
  simp only [Machine.powerOn, initProcs, if_pos, initIncr_eq]

end Mlogv32.Cpu
