import Mlogv32.Cpu.Lemmas.Execute
import Mlogv32.Cpu.Lemmas.Steps
import Mlogv32.Cpu.Theorems.Decode

/-!
# Integer instructions

The handlers of the integer instructions write the specified word to `rd`, and no operation on the
way leaves the integers that a double holds.
-/

namespace Mlogv32.Cpu
open Mlog Isa

/-! ## The handlers of an instruction -/

/-- The immediate of an instruction is a word. A shift amount is below 32. -/
theorem Fetched.Runs.aluRd {d : Fetched} {i : Instr} (h : d.Runs i) {pc x y v : Word}
    (hv : i.result pc x y = some v) :
    Cpu.aluRd (handlerLabel i) pc.toNat x.toNat y.toNat d.imm = some (v.toNat : Int) := by
  cases i <;> simp only [Instr.result, Option.some.injEq, reduceCtorEq] at hv <;> subst hv
  case lui rd n =>
    rw [h.imm _ rfl]
    rfl
  case auipc rd n =>
    rw [h.imm _ rfl]
    exact congrArg some (add_eq _ _)
  case opImm op rd r1 n =>
    rw [h.imm _ rfl]
    exact aluRd_opImm op _ _ x _
  case shiftImm op rd r1 shamt =>
    rw [h.imm _ rfl]
    exact aluRd_shiftImm op _ _ x
  case opReg op rd r1 r2 => exact aluRd_opReg op _ _ x y

/-- The handler ends with the write of the result. -/
theorem Fetched.Runs.execute {d : Fetched} {i : Instr} (h : d.Runs i) {s : Hart} {pc x y v : Word}
    (hpc : s.pc = pc.toNat) (hv : i.result pc x y = some v) (cfg : Config) :
    execute cfg d x.toNat y.toNat s = .ok (.endInstructionWithRd d.rdId v.toNat) s := by
  have halu := h.aluRd hv
  rw [← hpc] at halu
  rw [execute_eq cfg _ _ h.label]
  exact handler_alu halu

/-- The operations of a handler give the result on integers of any size, none of them reaches 2^53,
and so they give the same result in doubles. -/
structure ComputesExactly (p : Steps Int) (v : Word) : Prop where
  exact : p.exact = v.toNat
  below : p.Below (2 ^ 53)
  double : p.run toDouble = v.toNat

theorem computesExactly {label : Label} {pc rs1 rs2 imm : Int} {p : Steps Int} {v : Word}
    (hsteps : aluSteps label pc rs1 rs2 imm = some p)
    (hrd : aluRd label pc rs1 rs2 imm = some (v.toNat : Int)) (hbelow : p.Below (2 ^ 53)) :
    ComputesExactly p v := by
  have hexact : p.exact = v.toNat := Option.some.inj ((aluSteps_exact hsteps).symm.trans hrd)
  exact ⟨hexact, hbelow, hbelow.run_toDouble.trans hexact⟩

/-! ## Multiplication and division -/

theorem muldiv_result (cfg : Config) {op : RegOp} (hop : op.isM = true) {rd r1 r2 : Reg} {d : Fetched}
    (hfetch : FetchOf (Instr.opReg op rd r1 r2).encode d) (s : Hart) (x y : Word) :
    execute cfg d x.toNat y.toNat s = .ok (.endInstructionWithRd rd.toNat (op.result x y).toNat) s ∧
    (op.isMul = true → ∃ p, aluSteps (handlerLabel (.opReg op rd r1 r2)) s.pc
      x.toNat y.toNat d.imm = some p ∧
      ComputesExactly p (op.result x y)) := by
  have hruns := hfetch.runs
  have hrd : aluRd (handlerLabel (.opReg op rd r1 r2)) s.pc x.toNat y.toNat d.imm =
      some ((op.result x y).toNat : Int) := aluRd_opReg op s.pc d.imm x y
  constructor
  · rw [execute_eq cfg _ _ hruns.label, ← hruns.rd rd rfl]
    exact handler_alu hrd
  · intro hmul
    have hx := isWord_toNat x
    have hy := isWord_toNat y
    cases op with
    | mul => exact ⟨_, rfl, computesExactly rfl hrd (mulSteps_below hx hy)⟩
    | mulh => exact ⟨_, rfl, computesExactly rfl hrd (mulhSteps_below hx hy)⟩
    | mulhsu => exact ⟨_, rfl, computesExactly rfl hrd (mulhsuSteps_below hx hy)⟩
    | mulhu => exact ⟨_, rfl, computesExactly rfl hrd (mulhSUSteps_below hx hy 0 0)⟩
    | _ => cases hmul

/-- DIV of the smallest number by -1. -/
theorem muldiv_result_div : execute (smallBuild fun _ _ => none)
      (slowFetch (Instr.opReg .div 3 1 2).encode.toNat 0) 0x80000000 0xffffffff bareHart =
    .ok (.endInstructionWithRd 3 0x80000000) bareHart := by
  have hfetch : FetchOf (Instr.opReg .div 3 1 2).encode
      (slowFetch (Instr.opReg .div 3 1 2).encode.toNat 0) :=
    ⟨0, .inl rfl⟩
  exact (muldiv_result (smallBuild fun _ _ => none) rfl hfetch bareHart 0x80000000 0xffffffff).1

/-! ## The base instructions -/

/-- The immediate of an integer instruction is a word, and a shift amount is below 32. -/
theorem Fetched.Runs.immWord {d : Fetched} {i : Instr} (h : d.Runs i) {v : Word} (hv : i.imm = some v) :
    IsWord d.imm ∧ (handlerLabel i ∈ [.SLLI, .SRAI] → d.imm < 32) := by
  rw [h.imm v hv]
  refine ⟨isWord_toNat v, fun hshift => ?_⟩
  cases i with
  | shiftImm op rd r1 shamt =>
      cases hv
      have hlt := shamt.isLt
      rw [BitVec.toNat_setWidth]
      omega
  | branch op => cases op <;> simp [handlerLabel] at hshift
  | load op => cases op <;> simp [handlerLabel] at hshift
  | store op => cases op <;> simp [handlerLabel] at hshift
  | opImm op => cases op <;> simp [handlerLabel] at hshift
  | opReg op => cases op <;> simp [handlerLabel] at hshift
  | amo op => cases op <;> simp [handlerLabel] at hshift
  | csr op => cases op <;> simp [handlerLabel] at hshift
  | _ => simp [handlerLabel] at hshift

theorem Fetched.Runs.steps {d : Fetched} {i : Instr} (h : d.Runs i) (hbase : i.isM = false)
    {pc x y v : Word} (hv : i.result pc x y = some v) :
    ∃ p, aluSteps (handlerLabel i) pc.toNat x.toNat y.toNat d.imm = some p ∧ ComputesExactly p v := by
  have hrd := h.aluRd hv
  have hbelow : ∀ {imm : Int} {p : Steps Int}, IsWord imm →
    (handlerLabel i ∈ [.SLLI, .SRAI] → imm < 32) →
      aluSteps (handlerLabel i) pc.toNat x.toNat y.toNat imm = some p → p.Below (2 ^ 53) :=
    aluSteps_below (isWord_toNat pc) (isWord_toNat x) (isWord_toNat y)
  cases i with
  | lui rd n => exact ⟨_, rfl, computesExactly rfl hrd (hbelow (h.immWord rfl).1 (h.immWord rfl).2 rfl)⟩
  | auipc rd n =>
      exact ⟨_, rfl, computesExactly rfl hrd (hbelow (h.immWord rfl).1 (h.immWord rfl).2 rfl)⟩
  | opImm op rd r1 n =>
      cases op <;> exact ⟨_, rfl,
        computesExactly rfl hrd (hbelow (h.immWord rfl).1 (h.immWord rfl).2 rfl)⟩
  | shiftImm op rd r1 n =>
      cases op <;> exact ⟨_, rfl,
        computesExactly rfl hrd (hbelow (h.immWord rfl).1 (h.immWord rfl).2 rfl)⟩
  | opReg op rd r1 r2 =>
      -- no handler of two registers reads the immediate, which another instruction may have left
      have hzero : IsWord (0 : Int) := by decide
      cases op
      case mul | mulh | mulhsu | mulhu | div | divu | rem | remu => cases hbase
      all_goals exact ⟨_, rfl, computesExactly rfl hrd (hbelow hzero (fun _ => by decide) rfl)⟩
  | _ => cases hv

/-- The operands of a branch, and its decision. -/
theorem Fetched.Runs.branch {d : Fetched} {op : BranchOp} {r1 r2 : Reg} {n : BitVec 12}
    (h : d.Runs (.branch op r1 r2 n)) (cfg : Config) (s : Hart) (x y : Word) :
    Cpu.execute cfg d x.toNat y.toNat s = Cpu.branch (op.holds x y) d.imm s ∧
    ∃ p, branchSteps (handlerLabel (.branch op r1 r2 n)) x.toNat y.toNat = some p ∧ p.Below (2 ^ 53) ∧
      p.run toDouble = p.exact := by
  constructor
  · rw [execute_eq cfg _ _ h.label, handler_branch (branchTaken_eq op x y)]
  · have hsteps : ∃ p, branchSteps (handlerLabel (.branch op r1 r2 n)) x.toNat y.toNat = some p := by
      cases op <;> exact ⟨_, rfl⟩
    obtain ⟨p, hp⟩ := hsteps
    have hbelow := branchSteps_below (isWord_toNat x) (isWord_toNat y) hp
    exact ⟨p, hp, hbelow, hbelow.run_toDouble⟩

theorem base_integer (cfg : Config) {s : Hart} {pc : Word} (hpc : s.pc = pc.toNat) (x y : Word) :
    (∀ i d v, i.isM = false → FetchOf i.encode d → i.result pc x y = some v →
      (∃ rd ∈ i.rd, execute cfg d x.toNat y.toNat s = .ok (.endInstructionWithRd rd.toNat v.toNat) s) ∧
      ∃ p, aluSteps (handlerLabel i) s.pc x.toNat y.toNat d.imm = some p ∧ ComputesExactly p v) ∧
    ∀ op r1 r2 n d, FetchOf (Instr.branch op r1 r2 n).encode d →
      execute cfg d x.toNat y.toNat s = branch (op.holds x y) d.imm s ∧
      ∃ p, branchSteps (handlerLabel (.branch op r1 r2 n)) x.toNat y.toNat = some p ∧ p.Below (2 ^ 53) ∧
        p.run toDouble = p.exact := by
  refine ⟨fun i d v hbase hfetch hv => ⟨?_, ?_⟩, fun op r1 r2 n d hfetch => hfetch.runs.branch cfg s x y⟩
  · have hrd : ∃ rd, i.rd = some rd := by
      cases i <;> first | exact ⟨_, rfl⟩ | cases hv
    obtain ⟨rd, hrd⟩ := hrd
    have hexecute := hfetch.runs.execute hpc hv cfg
    rw [hfetch.runs.rd rd hrd] at hexecute
    exact ⟨rd, hrd, hexecute⟩
  · rw [hpc]
    exact hfetch.runs.steps hbase hv

/-- SUB of 1 from 0. -/
theorem base_integer_sub : ∃ rd ∈ (Instr.opReg .sub 3 1 2).rd, execute (smallBuild fun _ _ => none)
      (slowFetch (Instr.opReg .sub 3 1 2).encode.toNat 0) 0 1 bareHart =
    .ok (.endInstructionWithRd rd.toNat 0xffffffff) bareHart := by
  have hpc : bareHart.pc = ((0 : Word).toNat : Int) := rfl
  exact ((base_integer (smallBuild fun _ _ => none) hpc 0 1).1 (.opReg .sub 3 1 2) _
    _ rfl ⟨0, .inl rfl⟩ rfl).1

end Mlogv32.Cpu
