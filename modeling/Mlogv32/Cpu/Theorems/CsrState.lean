import Mlogv32.Cpu.Lemmas.Atomic
import Mlogv32.Cpu.Lemmas.CsrState
import Mlogv32.Cpu.Theorems.Decode
import Mlogv32.Cpu.Theorems.Retire

/-!
# The CSR instructions

Each of the six CSR instructions does to the CSRs what `Csr.execute` says.
-/

namespace Mlogv32.Cpu
open Mlog Logic Isa

variable {cfg : Config} {s : Hart}

/-! ## Writes -/

theorem csrEntry_minstret :
    (csrEntry Csr.minstret).write = .minstret ∧ csrTable.zero Csr.minstret = false := by
  decide

theorem csrEntry_minstreth :
    (csrEntry Csr.minstreth).write = .minstreth ∧ csrTable.zero Csr.minstreth = false := by
  decide

/-- The write handlers of minstret and minstreth take back the 1 that the end of the instruction
adds. -/
theorem minstret_state (x : Int) (hx : x < 2 ^ 32) :
    Csr.retire (csrState cfg (csrWriteHart cfg (.var Csr.minstret) x s .minstret)) =
      Function.update (csrState cfg s) Csr.minstret x := by
  have hlow : Function.update (csrState cfg s) Csr.minstret (x - 1) Csr.minstret + 1 = x := by
    rw [Function.update_self]
    omega
  rw [csrWriteHart, csrState_csrMinstret, Csr.retire, hlow, if_pos hx, Function.update_idem]

theorem minstreth_state (x : Int) (hs : s.csrMinstret < 2 ^ 32) :
    Csr.retire (csrState cfg (csrWriteHart cfg (.var Csr.minstreth) x s .minstreth)) =
      Function.update (csrState cfg s) Csr.minstreth x := by
  have hne : Csr.minstret ≠ Csr.minstreth := by decide
  have hlow : Function.update (Function.update (csrState cfg s) Csr.minstret (s.csrMinstret - 1))
    Csr.minstreth x
      Csr.minstret + 1 = s.csrMinstret := by
    rw [Function.update_of_ne hne, Function.update_self]
    omega
  rw [csrWriteHart, csrState_writeCsr (by decide), csrState_csrMinstret, Csr.retire, hlow, if_pos hs,
    Function.update_comm hne, Function.update_idem, Function.update_comm hne.symm]
  exact congrArg (Function.update · Csr.minstreth x)
    (Function.update_eq_self Csr.minstret (csrState cfg s))

/-- The CSRs after an instruction that writes. -/
theorem csrWrite_finish {n : Nat} (hlisted : csrTable.listed n = true) (hwritable : n / 1024 ≠ 3)
    (hs : CsrStateOk cfg s) {x : Int} (hword : IsWord x) (hx : Within (csrTable.mask n) x)
    (rdId rd : Int) :
    csrState cfg (finish cfg (csrWriteHart cfg (.var n) x s (csrEntry n).write)
        (csrWriteEnd rdId rd (csrEntry n).write)).2 =
      if n = Csr.minstret ∨ n = Csr.minstreth then Csr.write csrTable (csrState cfg s) n x
      else Csr.retire (Csr.write csrTable (csrState cfg s) n x) := by
  rw [finish_state _ (csrWriteEnd_retires rdId rd _)]
  by_cases hlow : n = Csr.minstret
  · subst hlow
    have hwrite : Csr.write csrTable (csrState cfg s) Csr.minstret x =
        Function.update (csrState cfg s) Csr.minstret x := by
      rw [Csr.write, csrEntry_minstret.2]
      rfl
    rw [if_pos (Or.inl rfl), csrEntry_minstret.1, minstret_state x hword.2, hwrite]
  · by_cases hhigh : n = Csr.minstreth
    · subst hhigh
      have hwrite : Csr.write csrTable (csrState cfg s) Csr.minstreth x =
          Function.update (csrState cfg s) Csr.minstreth x := by
        rw [Csr.write, csrEntry_minstreth.2]
        rfl
      rw [if_pos (Or.inr rfl), csrEntry_minstreth.1, minstreth_state x hs.minstret, hwrite]
    · rw [if_neg (by simp [hlow, hhigh]), csrWriteHart_state hlisted hwritable hs ⟨hlow, hhigh⟩ hword hx]

/-! ## Instructions -/

/-- The operation that the handler of a CSR instruction goes on to. -/
def modifyCsrOp : CsrOp → ModifyCsrOp
  | .csrrw | .csrrwi => .rw
  | .csrrs | .csrrsi => .rs
  | .csrrc | .csrrci => .rc

theorem csrOperand_csr (op : CsrOp) (rd r1 : Reg) (n : BitVec 12) (d : Fetched) (x : Int) :
    csrOperand d x (handlerLabel (.csr op rd r1 n)) = some (modifyCsrOp op, op.operand d.rs1Id x) := by
  cases op <;> rfl

theorem modifyCsrOp_result (op : CsrOp) (x old : Int) :
    (modifyCsrOp op).result x old = op.modify x old := by
  cases op with
  | csrrw | csrrwi => rfl
  | csrrs | csrrsi => exact opOr_comm x old
  | csrrc | csrrci => exact opAnd_comm (opNot x) old

theorem readsOnly_iff (op : CsrOp) (d : Fetched) :
    (modifyCsrOp op).readsOnly d ↔ op.writes d.rs1Id = false := by
  cases op <;> simp [modifyCsrOp, ModifyCsrOp.readsOnly, CsrOp.writes]

/-- The lowest mode that may access a CSR. -/
theorem csrMode_eq (n : Nat) (hn : n < 4096) : opAnd (opShr n 8) 0b11 = ((n / 256 % 4 : Nat) : Int) := by
  have hshift := opShr_eq (n : Int) 8 (by decide) (by omega) (by omega)
  have hmask := opAnd_mask ((n : Int) / 2 ^ 8) 0 2 (b := 0b11) (by decide) (by decide)
  change opShr (n : Int) 8 = _ at hshift
  rw [hshift, hmask]
  omega

/-- What a CSR instruction does: it raises an illegal instruction exception in `s`, or writes the
old value to rd and ends with the CSRs that the ISA gives. -/
def RunsCsr (cfg : Config) (s : Hart) (rdId : Int) (r : EStateM.Result Trap Hart End) :
    Option (Int × Csr.State) → Prop
  | none => r = .error illegalOp s
  | some (old, c) => ∃ e s', r = .ok e s' ∧ e.retires = true ∧ csrState cfg (finish cfg s' e).2 = c ∧
      ∀ i, (finish cfg s' e).2.registers i = if rdId ≠ 0 ∧ i = rdId then old else s.registers i

theorem csrWriteEnd_rd (rdId rd : Int) (w : CsrWrite) :
    (csrWriteEnd rdId rd w).rdId = rdId ∧ (csrWriteEnd rdId rd w).rd = rd := by
  cases w <;> exact ⟨rfl, rfl⟩

theorem csrWriteHart_registers (cfg : Config) (csrVar : Value) (x : Int) (s : Hart) (w : CsrWrite) :
    (csrWriteHart cfg csrVar x s w).registers = s.registers := by
  cases w <;> rfl

/-- A CSR instruction that writes a CSR it may write. -/
theorem csrWrite_runs {n : Nat} (hlisted : csrTable.listed n = true) (hwritable : n / 1024 ≠ 3)
    (hs : CsrStateOk cfg s) {x : Int} (hword : IsWord x) (hx : Within (csrTable.mask n) x)
    (rdId rd : Int) :
    RunsCsr cfg s rdId (csrWrite cfg (csrEntry n).read (.var n) x rdId rd (csrEntry n).write s)
      (some (rd, if n = Csr.minstret ∨ n = Csr.minstreth then Csr.write csrTable (csrState cfg s) n x
        else Csr.retire (Csr.write csrTable (csrState cfg s) n x))) := by
  obtain ⟨hsip, hsie⟩ := csrEntry_sip_sie n
  obtain ⟨hillegal, -⟩ := csrEntries_write _ (csrEntry_mem hlisted)
  rw [csrEntry_number] at hillegal
  have hlegal : (csrEntry n).write ≠ .ILLEGAL_OP := fun h => hwritable (hillegal.mp h)
  have hretires := csrWriteEnd_retires rdId rd (csrEntry n).write
  have hregisters := finish_registers cfg (csrWriteHart cfg (.var n) x s (csrEntry n).write) hretires
  obtain ⟨hrdId, hrd⟩ := csrWriteEnd_rd rdId rd (csrEntry n).write
  rw [csrWriteHart_registers, hrdId, hrd] at hregisters
  exact ⟨_, _, csrWrite_eq cfg (.var n) x rdId rd s hsip hsie hlegal, hretires,
    csrWrite_finish hlisted hwritable hs hword hx rdId rd, hregisters⟩

theorem modifyCsr_runs (op : CsrOp) {d : Fetched} {n : Nat} (himm : d.imm = n) (hn : n < 4096)
    (hs : CsrStateOk cfg s) (x : Int) :
    RunsCsr cfg s d.rdId (modifyCsr cfg d (modifyCsrOp op) (op.operand d.rs1Id x) s)
      (Csr.execute csrTable s.privilegeMode op d.rs1Id x n (csrState cfg s)) := by
  rw [modifyCsr_eq _ _ (by omega) hs.csrLabels, himm, Int.toNat_natCast, csrMode_eq n hn,
    Csr.execute, Csr.illegal]
  by_cases hmode : s.privilegeMode < ((n / 256 % 4 : Nat) : Int)
  · rw [if_pos hmode, decide_eq_true hmode]
    rfl
  rw [if_neg hmode]
  cases hlisted : csrTable.listed n with
  | false =>
      rw [csrEntry_not_listed hlisted, if_pos (by simp)]
      rfl
  | true =>
      have hread := csrRead_eq hlisted (not_lt.mp hmode) hs
      rw [CsrReads] at hread
      by_cases hdenied : (Csr.counterDenied s.privilegeMode (csrState cfg s) n ||
          Csr.satpDenied s.privilegeMode (csrState cfg s) n) = true
      · rw [if_pos hdenied] at hread
        rw [bind_error hread, if_pos (by rw [Bool.or_assoc, hdenied, Bool.or_true])]
        rfl
      · rw [if_neg hdenied] at hread
        rw [Bool.not_eq_true] at hdenied
        rw [bind_ok hread, Bool.or_assoc _ _ (Csr.satpDenied _ _ _), hdenied,
          decide_eq_false hmode, Bool.or_false]
        by_cases hreads : op.writes d.rs1Id = false
        · rw [if_pos ((readsOnly_iff op d).mpr hreads), hreads]
          exact ⟨_, s, rfl, rfl, finish_state s rfl, finish_registers cfg s rfl⟩
        · rw [if_neg fun h => hreads ((readsOnly_iff op d).mp h), Bool.eq_true_of_not_eq_false hreads]
          by_cases hwritable : n / 1024 = 3
          · have hillegal := (csrEntries_write _ (csrEntry_mem hlisted)).1
            rw [csrEntry_number] at hillegal
            rw [hillegal.mpr hwritable, decide_eq_true hwritable]
            rfl
          · have hword := masked_word (modifyCsrOp op) n (op.operand d.rs1Id x)
              (Csr.read csrTable (csrState cfg s) n)
            rw [decide_eq_false hwritable]
            rw [ModifyCsrOp.masked, modifyCsrOp_result] at hword ⊢
            exact csrWrite_runs hlisted hwritable hs hword (within_opAnd _ _) d.rdId _

/-! ## The six instructions -/

/-- In every legal state of the CSRs, a CSR instruction raises an illegal instruction exception
exactly when the ISA does. Else rd gets the old value, and the CSRs change as the ISA says. -/
theorem csr_semantics (cfg : Config) {op : CsrOp} {rd r1 : Reg} {n : BitVec 12} {d : Fetched}
    (hfetch : FetchOf (Instr.csr op rd r1 n).encode d) (hs : CsrStateOk cfg s) (x rs2 : Int) :
    RunsCsr cfg s rd.toNat (execute cfg d x rs2 s)
      (Csr.execute csrTable s.privilegeMode op r1.toNat x n.toNat (csrState cfg s)) := by
  have hruns := hfetch.runs
  have himm : d.imm = (n.toNat : Int) := by
    rw [hruns.imm (n.setWidth 32) rfl, BitVec.toNat_setWidth]
    omega
  rw [execute_csr hruns.label (csrOperand_csr op rd r1 n d x) rs2, ← hruns.rd rd rfl, ← hruns.rs1 r1 rfl]
  exact modifyCsr_runs op himm n.isLt hs x

/-- The CSRs are legal in every run whose stores go to mapped addresses and store words. -/
theorem Reaches.csrStateOk {m : Machine} (h : Reaches cfg (StoresOk cfg) m) : CsrStateOk cfg m.hart := by
  obtain ⟨hsound, hprivilege⟩ := h.privilegeOk
  refine ⟨hsound.hart.csrLabels, h.modeOk, ?_, ?_, h.csrMinstret.2⟩
  · exact within_mono hprivilege.mstatus (by decide)
  · exact within_mono hprivilege.mideleg (by decide)

theorem bareHart_csrStateOk : CsrStateOk (smallBuild fun _ _ => none) bareHart := by
  have hstart : Reaches (smallBuild fun _ _ => none) (StoresOk (smallBuild fun _ _ => none))
      (Machine.start (smallBuild fun _ _ => none) fun _ _ => 0) := .init ⟨_, rfl⟩
  exact hstart.csrStateOk

/-- The value of a CSR after an instruction that is legal. -/
theorem RunsCsr.csr {rdId : Int} {r : EStateM.Result Trap Hart End} {o : Option (Int × Csr.State)}
    {n : Nat} {v : Int} (h : RunsCsr cfg s rdId r o) (hv : o.map (fun p => p.2 n) = some v) :
    ∃ e s', r = .ok e s' ∧ csrState cfg (finish cfg s' e).2 n = v := by
  obtain ⟨⟨old, c⟩, rfl, hn⟩ := Option.map_eq_some_iff.mp hv
  obtain ⟨e, s', hr, -, hc, -⟩ := h
  exact ⟨e, s', hr, by rw [hc, ← hn]⟩

/-- `csrrwi x5, mscratch, 7`. -/
def csrrwiMscratch : Instr := .csr .csrrwi 5 7 0x340

theorem csr_semantics_csrrwiMscratch : ∃ e s',
    execute (smallBuild fun _ _ => none) (slowFetch csrrwiMscratch.encode.toNat 0)
      0 0 bareHart = .ok e s' ∧
      csrState (smallBuild fun _ _ => none) (finish (smallBuild fun _ _ => none) s' e).2 0x340 = 7 := by
  have hfetch : FetchOf (Instr.csr .csrrwi 5 7 0x340).encode
    (slowFetch csrrwiMscratch.encode.toNat 0) := ⟨0, .inl rfl⟩
  have hexecute : (Csr.execute csrTable bareHart.privilegeMode .csrrwi (7 : Reg).toNat 0
    (0x340 : BitVec 12).toNat
      (csrState (smallBuild fun _ _ => none) bareHart)).map (fun p => p.2 0x340) = some 7 := by decide
  exact (csr_semantics (smallBuild fun _ _ => none) hfetch bareHart_csrStateOk 0 0).csr hexecute

/-- misa has the mask 0xffffffff, but a write keeps its value. -/
theorem csrw_keeps_misa : ∃ e s',
    execute (smallBuild fun _ _ => none) (slowFetch (Instr.csr .csrrw 0 0 0x301).encode.toNat 0)
      0 0 bareHart = .ok e s' ∧
      csrState (smallBuild fun _ _ => none) (finish (smallBuild fun _ _ => none) s' e).2 Csr.misa ≠
        opAnd (CsrOp.csrrw.modify 0 (csrState (smallBuild fun _ _ => none) bareHart Csr.misa))
          (csrTable.mask Csr.misa) := by
  have hfetch : FetchOf (Instr.csr .csrrw 0 0 0x301).encode
      (slowFetch (Instr.csr .csrrw 0 0 0x301).encode.toNat 0) :=
    ⟨0, .inl rfl⟩
  have hlabel : labels ((slowFetch (Instr.csr .csrrw 0 0 0x301).encode.toNat 0).opId + 192) =
      some (handlerLabel (.csr .csrrw 0 0 0x301)) := hfetch.runs.label
  have himm : (slowFetch (Instr.csr .csrrw 0 0 0x301).encode.toNat 0).imm = Csr.misa := by decide +kernel
  have hexecute : (Csr.execute csrTable bareHart.privilegeMode .csrrw
      (slowFetch (Instr.csr .csrrw 0 0 0x301).encode.toNat 0).rs1Id 0 Csr.misa
      (csrState (smallBuild fun _ _ => none) bareHart)).map (fun p => p.2 Csr.misa) =
        some 0b01000000100101000001000100000001 := by decide
  have hruns := modifyCsr_runs .csrrw himm (by decide) bareHart_csrStateOk 0
  rw [← execute_csr hlabel (csrOperand_csr .csrrw 0 0 0x301 _ 0) 0] at hruns
  obtain ⟨e, s', hr, hmisa⟩ := hruns.csr hexecute
  refine ⟨e, s', hr, ?_⟩
  rw [hmisa]
  decide

end Mlogv32.Cpu
