import Mlogv32.Cpu.Machine
import Mlogv32.Cpu.Lemmas.Cells
import Mlogv32.Cpu.Lemmas.Fetched
import Mlogv32.Logic.Wp

/-!
# CSR instructions

CSR_LABELS leads every CSR instruction to the handlers of its entry in `csrs`.
-/

namespace Mlogv32.Cpu
open Mlog Logic

/-! ## The table -/

/-- One step of the search for the last entry of a number. -/
def selectEntry (n : Nat) (r e : CsrEntry) : CsrEntry := if n = e.number then e else r

/-- The entry of a number that `csrs` does not list. -/
def noEntry (n : Nat) : CsrEntry := { number := n, read := .ILLEGAL_OP, write := .ILLEGAL_OP, mask := 0 }

/-- The entry of a CSR number. -/
def csrEntry (n : Nat) : CsrEntry := csrEntries.foldl (selectEntry n) (noEntry n)

theorem initCsrLabels_eq (n : Nat) : initCsrLabels n =
    .num (packCsr (csrEntry n).mask (csrEntry n).write (csrEntry n).read) := by
  have hfold (es : List CsrEntry) (t : Nat → Value) (r : CsrEntry)
      (h : t n = .num (packCsr r.mask r.write r.read)) :
      es.foldl (fun t e j => if j = e.number then .num (packCsr e.mask e.write e.read) else t j) t n =
        .num (packCsr (es.foldl (selectEntry n) r).mask (es.foldl (selectEntry n) r).write
          (es.foldl (selectEntry n) r).read) := by
    induction es generalizing t r with
    | nil => exact h
    | cons e es ih =>
        refine ih _ _ ?_
        simp only [selectEntry]
        split
        · rfl
        · exact h
  exact hfold csrEntries _ _ rfl

/-- What holds of the entries with a number holds of the entry of the number. -/
theorem csrEntry_of_forall {p : CsrEntry → Prop} {n : Nat} (hall : ∀ e ∈ csrEntries, n = e.number → p e)
    (hnone : p (noEntry n)) : p (csrEntry n) := by
  have hfold (es : List CsrEntry) (hes : ∀ e ∈ es, n = e.number → p e) (r : CsrEntry) (hr : p r) :
      p (es.foldl (selectEntry n) r) := by
    induction es generalizing r with
    | nil => exact hr
    | cons e es ih =>
        refine ih (fun e he => hes e (List.mem_cons_of_mem _ he)) _ ?_
        unfold selectEntry
        split
        · rename_i h
          exact hes e List.mem_cons_self h
        · exact hr
  exact hfold csrEntries hall _ hnone

theorem csrEntry_number (n : Nat) : (csrEntry n).number = n :=
  csrEntry_of_forall (p := fun e => e.number = n) (fun _ _ h => h.symm) rfl

theorem csrEntry_mask_lt (n : Nat) : (csrEntry n).mask < 2 ^ 32 :=
  have hall : ∀ e ∈ csrEntries, e.mask < 2 ^ 32 := by decide +kernel
  csrEntry_of_forall (fun e he _ => hall e he) (Nat.two_pow_pos 32)

/-- The write handlers of sip and sie use the value of mideleg that the read handler has read. -/
theorem csrEntry_sip_sie (n : Nat) : ((csrEntry n).write = .sip → (csrEntry n).read = .sip) ∧
    ((csrEntry n).write = .sie → (csrEntry n).read = .sie) :=
  have hall : ∀ e ∈ csrEntries, (e.write = .sip → e.read = .sip) ∧ (e.write = .sie → e.read = .sie) := by
    decide +kernel
  csrEntry_of_forall (p := fun e => (e.write = .sip → e.read = .sip) ∧ (e.write = .sie → e.read = .sie))
    (fun e he _ => hall e he) ⟨nofun, nofun⟩

/-! ## Packed values -/

theorem CsrRead.ofAddress_address (r : CsrRead) : CsrRead.ofAddress r.address = some r := by
  cases r <;> rfl

theorem CsrWrite.ofAddress_address (w : CsrWrite) : CsrWrite.ofAddress w.address = some w := by
  cases w <;> rfl

theorem CsrRead.address_lt (r : CsrRead) : r.address < 1000 := by
  cases r <;> decide

theorem CsrWrite.address_lt (w : CsrWrite) : w.address < 1000 := by
  cases w <;> decide

theorem packCsr_read (mask : Nat) (write : CsrWrite) (read : CsrRead) :
    opMod (packCsr mask write read) 1000 = read.address := by
  have hr := read.address_lt
  unfold packCsr
  rw [opMod_eq (by positivity) (by decide)]
  omega

theorem packCsr_write (mask : Nat) (write : CsrWrite) (read : CsrRead) :
    opMod (opIdiv (packCsr mask write read) 1000) 1000 = write.address := by
  have hr := read.address_lt
  have hw := write.address_lt
  unfold packCsr
  rw [opIdiv_eq _ (by decide), opMod_eq (by positivity) (by decide)]
  omega

theorem packCsr_mask (mask : Nat) (write : CsrWrite) (read : CsrRead) :
    opIdiv (packCsr mask write read) 1000000 = mask := by
  have hr := read.address_lt
  have hw := write.address_lt
  unfold packCsr
  rw [opIdiv_eq _ (by decide)]
  omega

/-! ## The instructions -/

/-- CSR_LABELS holds what the controller has written. -/
def CsrLabelsOk (cfg : PageConfig) (s : Hart) : Prop := ∀ i, s.procs cfg.csrLabels i = initCsrLabels i

theorem start_csrLabels (cfg : PageConfig) (uarts : Uarts) :
    CsrLabelsOk cfg (Machine.start cfg uarts).hart := by
  intro i
  refine (resetHart_procs_of_ne _ _ cfg.csrs_ne_csrLabels.symm i).trans ?_
  simp only [Machine.powerOn, initProcs]
  rw [if_neg cfg.incr_ne_csrLabels.symm, if_pos trivial]

/-- The operation of a CSR instruction, with its operand. -/
def csrOperand (d : Fetched) (rs1 : Int) : Label → Option (ModifyCsrOp × Int)
  | .CSRRW => some (.rw, rs1)
  | .CSRRS => some (.rs, rs1)
  | .CSRRC => some (.rc, rs1)
  | .CSRRWI => some (.rw, d.rs1Id)
  | .CSRRSI => some (.rs, d.rs1Id)
  | .CSRRCI => some (.rc, d.rs1Id)
  | _ => none

theorem execute_csr {cfg : PageConfig} {d : Fetched} {rs1 x : Int} {label : Label}
    {op : ModifyCsrOp} (hlabel : labels (d.opId + 192) = some label)
    (hop : csrOperand d rs1 label = some (op, x)) (rs2 : Int) :
    execute cfg d rs1 rs2 = modifyCsr cfg d op x := by
  unfold execute
  rw [hlabel]
  cases label <;> simp only [csrOperand, reduceCtorEq, Option.some.injEq, Prod.mk.injEq] at hop <;>
    obtain ⟨rfl, rfl⟩ := hop <;> rfl

/-- The instruction does not write: it is CSRRS or CSRRC with x0 or a zero immediate. -/
def ModifyCsrOp.readsOnly (op : ModifyCsrOp) (d : Fetched) : Prop := op ≠ .rw ∧ d.rs1Id = 0

instance (op : ModifyCsrOp) (d : Fetched) : Decidable (op.readsOnly d) :=
  inferInstanceAs (Decidable (_ ∧ _))

/-- The value that the write handler of an entry gets. -/
def ModifyCsrOp.masked (op : ModifyCsrOp) (e : CsrEntry) (x rd : Int) : Int :=
  opAnd (op.result x rd) e.mask

theorem masked_word (op : ModifyCsrOp) (n : Nat) (x rd : Int) :
    IsWord (op.masked (csrEntry n) x rd) := by
  have hmask := csrEntry_mask_lt n
  exact isWord_opAnd _ ⟨by omega, by omega⟩

/-- A CSR instruction runs the handlers of its entry. -/
theorem modifyCsr_eq {cfg : PageConfig} {d : Fetched} {s : Hart} (op : ModifyCsrOp) (x : Int)
    (himm : 0 ≤ d.imm ∧ d.imm < 4096) (htable : CsrLabelsOk cfg s) :
    modifyCsr cfg d op x s =
      (if s.privilegeMode < opAnd (opShr d.imm 8) 0b11 then throw illegalOp
        else do
          let rd ← csrRead cfg d.imm (.var d.imm.toNat) (csrEntry d.imm.toNat).read
          if op.readsOnly d then return .endInstructionWithRd d.rdId rd
          csrWrite cfg (csrEntry d.imm.toNat).read (.var d.imm.toNat)
            (op.masked (csrEntry d.imm.toNat) x rd) d.rdId rd (csrEntry d.imm.toNat).write :
            Op End) s := by
  have hlabels : (readProc s.procs cfg.csrLabels (.var d.imm.toNat) .null).toNum =
      packCsr (csrEntry d.imm.toNat).mask (csrEntry d.imm.toNat).write (csrEntry d.imm.toNat).read := by
    rw [readProc, htable, initCsrLabels_eq]
    rfl
  unfold modifyCsr
  rw [bind_get]
  simp only [lookupVariable_eq himm.1 himm.2, hlabels, packCsr_read, packCsr_write, packCsr_mask,
    CsrRead.ofAddress_address, CsrWrite.ofAddress_address, ModifyCsrOp.readsOnly, ModifyCsrOp.masked]
  split
  · rfl
  · rfl

theorem csrRead_state (cfg : PageConfig) (imm : Int) (csrVar : Value) (r : CsrRead) (s : Hart) :
    wp (csrRead cfg imm csrVar r) (fun _ s' => s' = s) (fun t s' => t = illegalOp ∧ s' = s) s := by
  cases r <;>
    simp only [csrRead, readCounter, wp_bind, wp_get, wp_ite, wp_throw, wp_pure,
      implies_true, and_self]

theorem modifyCsr_ok {cfg : PageConfig} {d : Fetched} {op : ModifyCsrOp} {x : Int} {s s' : Hart}
    {e : End} (himm : 0 ≤ d.imm ∧ d.imm < 4096) (htable : CsrLabelsOk cfg s)
    (h : modifyCsr cfg d op x s = .ok e s') :
    opAnd (opShr d.imm 8) 0b11 ≤ s.privilegeMode ∧
    ∃ rd, csrRead cfg d.imm (.var d.imm.toNat) (csrEntry d.imm.toNat).read s = .ok rd s ∧
      if op.readsOnly d then e = .endInstructionWithRd d.rdId rd ∧ s' = s
      else csrWrite cfg (csrEntry d.imm.toNat).read (.var d.imm.toNat)
        (op.masked (csrEntry d.imm.toNat) x rd) d.rdId rd (csrEntry d.imm.toNat).write s = .ok e s' := by
  rw [modifyCsr_eq op x himm htable] at h
  split at h
  · cases h
  · rename_i hmode
    refine ⟨by omega, ?_⟩
    have hstate := csrRead_state cfg d.imm (.var d.imm.toNat) (csrEntry d.imm.toNat).read s
    cases hr : csrRead cfg d.imm (.var d.imm.toNat) (csrEntry d.imm.toNat).read s with
    | error t s1 =>
        rw [bind_error hr] at h
        cases h
    | ok rd s1 =>
        obtain rfl := wp_ok hstate hr
        rw [bind_ok hr] at h
        refine ⟨rd, rfl, ?_⟩
        split at h
        · rename_i hread
          rw [if_pos hread]
          obtain ⟨rfl, rfl⟩ := EStateM.Result.ok.inj h
          exact ⟨rfl, rfl⟩
        · rename_i hread
          rw [if_neg hread]
          exact h

/-! ## Write handlers -/

/-- The hart after a write handler. -/
def csrWriteHart (cfg : PageConfig) (csrVar : Value) (result : Int) (s : Hart) : CsrWrite → Hart
  | .ILLEGAL_OP | .readonly => s
  | .satp => { s with icacheVar := .null }.writeCsr cfg csrVar result
  | .csrs => s.writeCsr cfg csrVar result
  | .mstatus => writeSstatus { s with csrMstatus := 0 } (legalMpp result)
  | .sstatus => writeSstatus s result
  | .sip =>
      { s with
        csrMip := opOr (opAnd s.csrMip (opNot (s.csr cfg midelegCsr)))
          (opAnd result (s.csr cfg midelegCsr)) }
  | .mip => { s with csrMip := opOr (opAnd s.csrMip 0b11111111111111111111110111111101) result }
  | .sie =>
      { s with
        csrMie := opOr (opAnd s.csrMie (opNot (s.csr cfg midelegCsr)))
          (opAnd result (s.csr cfg midelegCsr)) }
  | .mie => { s with csrMie := opAnd result 0b00000000000000000000101010100010 }
  | .stimecmp => { s with csrStimecmp := result }
  | .stimecmph => { s with csrStimecmph := result }
  | .mcycle => { s with csrMcycle := result }
  | .minstret => { s with csrMinstret := result - 1 }
  | .minstreth => { s with csrMinstret := s.csrMinstret - 1 }.writeCsr cfg csrVar result

/-- The label that a write handler ends at. -/
def csrWriteEnd (rdId rd : Int) : CsrWrite → End
  | .mstatus | .sstatus | .sip | .mip | .sie | .mie => .endInstructionWithRdAndFireInterrupts rdId rd
  | .stimecmp | .stimecmph => .endInstructionWithRdAndPollInterrupts rdId rd
  | _ => .endInstructionWithRd rdId rd

theorem csrWrite_eq (cfg : PageConfig) {read : CsrRead} {write : CsrWrite} (csrVar : Value)
    (result rdId rd : Int) (s : Hart) (hsip : write = .sip → read = .sip)
    (hsie : write = .sie → read = .sie) (hlegal : write ≠ .ILLEGAL_OP) :
    csrWrite cfg read csrVar result rdId rd write s =
      .ok (csrWriteEnd rdId rd write) (csrWriteHart cfg csrVar result s write) := by
  cases write with
  | ILLEGAL_OP => exact absurd rfl hlegal
  | sip =>
      obtain rfl := hsip rfl
      rfl
  | sie =>
      obtain rfl := hsie rfl
      rfl
  | _ => rfl

/-- A CSR instruction that may access its CSR, reads it and may write it. -/
theorem modifyCsr_write {cfg : PageConfig} {d : Fetched} {op : ModifyCsrOp} {x rd : Int} {s : Hart}
    (himm : 0 ≤ d.imm ∧ d.imm < 4096) (htable : CsrLabelsOk cfg s)
    (hmode : opAnd (opShr d.imm 8) 0b11 ≤ s.privilegeMode)
    (hread : csrRead cfg d.imm (.var d.imm.toNat) (csrEntry d.imm.toNat).read s = .ok rd s)
    (hwrites : ¬op.readsOnly d) (hlegal : (csrEntry d.imm.toNat).write ≠ .ILLEGAL_OP) :
    modifyCsr cfg d op x s = .ok (csrWriteEnd d.rdId rd (csrEntry d.imm.toNat).write)
      (csrWriteHart cfg (.var d.imm.toNat) (op.masked (csrEntry d.imm.toNat) x rd) s
        (csrEntry d.imm.toNat).write) := by
  obtain ⟨hsip, hsie⟩ := csrEntry_sip_sie d.imm.toNat
  rw [modifyCsr_eq op x himm htable, if_neg (by omega), bind_ok hread, if_neg hwrites,
    csrWrite_eq cfg _ _ _ _ s hsip hsie hlegal]

/-- A CSR instruction that writes has the effect of the write handler of its entry. -/
theorem csrEntry_csrWrite_ok {cfg : PageConfig} {n : Nat} {csrVar : Value} {result rdId rd : Int}
    {s s' : Hart} {e : End}
    (h : csrWrite cfg (csrEntry n).read csrVar result rdId rd (csrEntry n).write s = .ok e s') :
    (csrEntry n).write ≠ .ILLEGAL_OP ∧ e = csrWriteEnd rdId rd (csrEntry n).write ∧
      s' = csrWriteHart cfg csrVar result s (csrEntry n).write := by
  have hlegal : (csrEntry n).write ≠ .ILLEGAL_OP := by
    intro hw
    rw [hw] at h
    cases h
  obtain ⟨hsip, hsie⟩ := csrEntry_sip_sie n
  rw [csrWrite_eq cfg csrVar result rdId rd s hsip hsie hlegal] at h
  obtain ⟨rfl, rfl⟩ := EStateM.Result.ok.inj h
  exact ⟨hlegal, rfl, rfl⟩

end Mlogv32.Cpu
