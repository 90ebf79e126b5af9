import Mlogv32.Cpu.Lemmas.Atomic
import Mlogv32.Cpu.Theorems.Decode

/-!
# Atomic memory operations

An AMO returns the old word and stores the modified one, or raises an exception before it reads.
-/

namespace Mlogv32.Cpu
open Mlog Logic Isa

/-- What an AMO does at address `a` of RAM, to which the translation has led from `s` to `s'`. -/
structure AmoDone (cfg : Config) (op : AmoOp) (rd : Reg) (y : Word) (a : Int) (s s' : Hart)
    (e : End) (t : Hart) :
    Prop where
  /-- `rd` receives the old word, and the word becomes the result. -/
  word : ∃ old : Word, loadRamWordUnchecked cfg s.procs a = old.toNat ∧
    loadRamWordUnchecked cfg t.procs a = (op.apply old y).toNat ∧ e.retires = true ∧
    ∀ i, (finish cfg t e).2.registers i = if rd ≠ 0 ∧ i = rd.toNat then (old.toNat : Int)
    else s.registers i
  /-- No other word of RAM changes. -/
  others : ∀ b, InRam cfg b → b / 4 ≠ a / 4 →
    loadRamWordUnchecked cfg t.procs b = loadRamWordUnchecked cfg s.procs b
  rest : ∃ imm procs, t = { s' with imm := imm, procs := procs }

theorem storedRam_rest (cfg : Config) (s : Hart) (address value : Int) :
    ∃ imm procs, storedRam cfg s address value = { s with imm := imm, procs := procs } := by
  rw [storedRam]
  split
  · exact ⟨_, _, rfl⟩
  · exact ⟨s.imm, _, rfl⟩

theorem toNat_ne_zero (r : Reg) : (r.toNat : Int) ≠ 0 ↔ r ≠ 0 := by
  rw [ne_eq, ne_eq, Int.natCast_eq_zero, ← BitVec.toNat_inj]
  rfl

/-- The end of an AMO at an address of RAM. -/
theorem amo_done {cfg : Config} {op : AmoOp} {rd : Reg} {d : Fetched} (hop : amoOp d.opId = amoOffset op)
    (hrd : d.rdId = rd.toNat) {rs1 a : Int} {s s' : Hart} (y : Word) (hframe : LoadFrame s s')
    (haddr : atomicValidateAddress cfg 6 rs1 s = .ok a s') (ha : InRam cfg a) (halign : a % 4 = 0) :
    ∃ e t, amo cfg d rs1 y.toNat s = .ok e t ∧ AmoDone cfg op rd y a s s' e t := by
  obtain ⟨old, -, hold⟩ := loadRamWordUnchecked_eq_read ha halign s'.procs
  have hrange := toNat_range (op.apply old y)
  obtain ⟨imm, procs, hrest⟩ := storedRam_rest cfg s' a (op.apply old y).toNat
  refine ⟨.endInstructionWithRd d.rdId old.toNat, storedRam cfg s' a (op.apply old y).toNat, ?_, ?_, ?_,
    ⟨imm, procs, hrest⟩⟩
  · rw [amo, bind_ok haddr, bind_get, hop, hold, amoModify_eq, storeRamWordUnchecked_eq]
  · refine ⟨old, hframe.procs ▸ hold, ?_, rfl, fun i => ?_⟩
    · rw [loadRamWordUnchecked_storedRam hrange.1 hrange.2 ha ha, if_pos rfl]
    · rw [finish_registers cfg _ rfl, hrest]
      dsimp only [End.rdId, End.rd]
      rw [hrd, hframe.registers]
      simp only [toNat_ne_zero]
  · intro b hb hne
    rw [loadRamWordUnchecked_storedRam hrange.1 hrange.2 ha hb, if_neg hne, hframe.procs]

/-- An AMO at an aligned address that the translation for a store leads to RAM modifies the word.
Else it raises the exception of the first check that fails, and the page walk was its only access to
memory. -/
theorem amo_semantics (cfg : Config) {op : AmoOp} {order : BitVec 2} {rd r1 r2 : Reg} {d : Fetched}
    (hfetch : FetchOf (Instr.amo op order rd r1 r2).encode d) {s : Hart} {x y : Word}
    (hx : s.registers r1.toNat = x.toNat) (hy : s.registers r2.toNat = y.toNat) :
    let run := execute cfg d (s.registers d.rs1Id) (s.registers d.rs2Id) s
    (x.toNat % 4 ≠ 0 → run = .error { mcause := 6, mtval := x.toNat } s) ∧
    (x.toNat % 4 = 0 → ∀ t s', atomicTranslate cfg 6 x.toNat s = .error t s' →
      run = .error t s' ∧ LoadFrame s s' ∧
        (t = { mcause := 7, mtval := x.toNat } ∨ t = { mcause := 15, mtval := x.toNat })) ∧
    (x.toNat % 4 = 0 → ∀ a s', atomicTranslate cfg 6 x.toNat s = .ok a s' → LoadFrame s s' ∧
      (¬InRam cfg a → run = .error { mcause := 7, mtval := x.toNat } s') ∧
      (InRam cfg a → ∃ e t, run = .ok e t ∧ AmoDone cfg op rd y a s s' e t)) := by
  have hruns := hfetch.runs
  have hlabel := hruns.label
  have hop : memOp (handlerLabel (.amo op order rd r1 r2)) = some (.amo op) := by cases op <;> rfl
  have hrun : execute cfg d (s.registers d.rs1Id) (s.registers d.rs2Id) s =
      amo cfg d x.toNat y.toNat s := by
    rw [hruns.rs1 r1 rfl, hruns.rs2 r2 rfl, hx, hy, execute_eq cfg _ _ hlabel, handler_eq_memHandler hop]
    rfl
  rw [hrun]
  refine ⟨fun halign => ?_, fun halign t s' htranslate => ?_, fun halign a s' htranslate => ?_⟩
  · exact bind_error (atomicValidateAddress_misaligned cfg 6 (by omega) s)
  · have herror := atomicValidateAddress_error (by omega) htranslate
    have hframe := wp_error (atomicTranslate_frame cfg 6 x.toNat s) htranslate
    exact ⟨bind_error herror, hframe.2, hframe.1⟩
  · have hvalidate := atomicValidateAddress_ok (by omega) htranslate
    have hframe := wp_ok (atomicTranslate_frame cfg 6 x.toNat s) htranslate
    refine ⟨hframe, fun hram => ?_, fun hram => ?_⟩
    · rw [if_neg hram] at hvalidate
      exact bind_error hvalidate
    · rw [if_pos hram] at hvalidate
      have halign' := (wp_ok (atomicValidateAddress_frame cfg 6 x.toNat s) hvalidate).2.2
      exact amo_done (amoOp_of_label hlabel hop) (hruns.rd rd rfl) y hframe hvalidate hram halign'

/-! ## One addition -/

/-- `x1` holds an address of RAM, and `x2` a number. -/
def amoHart : Hart :=
  { bareHart with registers := fun i => if i = 1 then 0x80000000 else if i = 2 then 7 else 0 }

/-- `amoadd.w x3, x2, (x1)`. -/
def amoaddX1 : Instr := .amo .amoadd 0 3 1 2

theorem amo_semantics_amoaddX1 :
    let d := slowFetch amoaddX1.encode.toNat 0
    ∃ e t, execute (smallBuild fun _ _ => none) d (amoHart.registers d.rs1Id)
      (amoHart.registers d.rs2Id) amoHart =
        .ok e t ∧
      AmoDone (smallBuild fun _ _ => none) .amoadd 3 7 0x80000000 amoHart amoHart e t := by
  have htranslate : atomicTranslate (smallBuild fun _ _ => none) 6 (0x80000000#32).toNat amoHart =
      .ok 0x80000000 amoHart := rfl
  have hfetch : FetchOf (Instr.amo .amoadd 0 3 1 2).encode (slowFetch amoaddX1.encode.toNat 0) :=
    ⟨0, .inl rfl⟩
  exact ((amo_semantics (smallBuild fun _ _ => none) hfetch (s := amoHart) (x := 0x80000000)
    (y := 7) rfl rfl).2.2 rfl _ _
    htranslate).2.2 (by decide)

end Mlogv32.Cpu
