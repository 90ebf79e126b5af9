import Mlogv32.Cpu.Lemmas.Access
import Mlogv32.Cpu.Lemmas.Alu
import Mlogv32.Cpu.Lemmas.Csr

/-!
# Effects of an instruction

`Effect` says what the handler of an instruction can do: how it ends and which state it leaves, and
`Raises` which exceptions it raises. What holds of runs follows from them, so that no proof about
runs unfolds a handler.
-/

namespace Mlogv32.Cpu
open Mlog Logic Isa

/-! ## What a handler needs -/

/-- The operand of a store is a word, and the fast path of SW meets a mapped address. -/
def StoreOk (cfg : PageConfig) (d : Fetched) (rs1 rs2 : Int) (s : Hart) : Prop :=
  ∀ label, labels (d.opId + 192) = some label →
    (label ∈ [.SB, .SH, .SW, .SC_W] → IsWord rs2) ∧
    (label = .SW → ∀ address s', setupLoadAndStoreValue cfg 6 rs1 d.imm 32 s = .ok address s' →
      Mapped cfg s address)

/-- What a handler relies on: a fetched instruction, a cursor that is a variable, the table of the
CSRs, and `StoreOk`. -/
structure Ready (cfg : PageConfig) (d : Fetched) (rs1 rs2 : Int) (s : Hart) : Prop where
  valid : d.Valid
  cursor : s.icacheVar = .null ∨ ∃ i, s.icacheVar = .var i
  csrLabels : CsrLabelsOk cfg s
  store : StoreOk cfg d rs1 rs2 s

/-! ## Addresses -/

/-- The address of an access after the check of its alignment. `trap` is its access fault. -/
def translated (cfg : PageConfig) (trap : Trap) : Op Int := do
  if (← get).effectivePrivilegeMode < 0b11 then translateVirtualAddress cfg trap else return trap.mtval

/-- The virtual address of an access. -/
def virtualAddress (op : MemOp) (imm rs1 : Int) : Int :=
  match op with
  | .load _ | .store _ => effectiveAddress rs1 imm
  | .lr | .sc | .amo _ => rs1

/-- The exception of a misaligned access. -/
def misalignedCause : MemOp → Int
  | .load _ | .lr => 4
  | .store _ | .sc | .amo _ => 6

/-- The access fault of an access. -/
def accessFault (op : MemOp) (va : Int) : Trap := { mcause := misalignedCause op + 1, mtval := va }

/-! ## Effects -/

/-- The machine timers, which a load in M-mode reads. -/
def TimersOk (s : Hart) : Prop :=
  IsWord s.csrMtime ∧ IsWord s.csrMtimeh ∧ IsWord s.csrMtimecmp ∧ IsWord s.csrMtimecmph

/-- The cursor after a jump: `null`, or the variable for the new address in the page of the old one. -/
def JumpCursor (s : Hart) (nextPc : Int) (v : Value) : Prop :=
  v = .null ∨ ∃ i, s.icacheVar = .var i ∧
    opAnd s.pc 0xfffff000 = opAnd nextPc 0xfffff000 ∧ v = jumpCursor i nextPc

/-- The state that SRET leaves, if it is legal. -/
def sretHart (cfg : PageConfig) (s : Hart) : Hart :=
  xRet 0b100000
    { s with
      privilegeMode := opShr (opAnd s.csrMstatus 0b100000000) 8
      csrMstatus := opAnd s.csrMstatus 0b11111111111111111111111011111101
      nextPc := s.csr cfg sepcCsr }

def mretHart (cfg : PageConfig) (s : Hart) : Hart :=
  xRet 0b10000000
    { s with
      privilegeMode := opShr (opAnd s.csrMstatus 0b1100000000000) 11
      csrMstatus := opAnd s.csrMstatus 0b11111111111111111110011111110111
      nextPc := s.csr cfg mepcCsr }

def mlogsysHart (cfg : PageConfig) (rs1 : Int) (s : Hart) : Hart :=
  mlogsysLoop cfg ((mlogsysEtext cfg rs1).toNat / 4 + 1) (-4) (0, 0) .null
    { s with etext := mlogsysEtext cfg rs1 }

/-- The labels of the CSR instructions. -/
def csrInstructions : List Label := [.CSRRW, .CSRRS, .CSRRC, .CSRRWI, .CSRRSI, .CSRRCI]

inductive Effect (cfg : PageConfig) (label : Label) (d : Fetched) (rs1 rs2 : Int) (s : Hart) :
    End → Hart → Prop
  /-- An integer instruction. -/
  | compute {rd : Int} (h : aluRd label s.pc rs1 rs2 d.imm = some rd) :
      Effect cfg label d rs1 rs2 s (.endInstructionWithRd d.rdId rd) s
  /-- A branch that is not taken, FENCE, WFI. -/
  | pass {e : End} (h : e = .endInstruction ∨ e = .pauseOneTick) : Effect cfg label d rs1 rs2 s e s
  /-- JAL and JALR, and a taken branch with no `rd`. -/
  | jump {rdId nextPc : Int} {v : Value} (hrd : rdId = 0 ∨ (rdId = d.rdId ∧ label ∈ [.JAL, .JALR]))
      (hnext : IsWord nextPc ∧ nextPc % 4 = 0) (hv : JumpCursor s nextPc v) :
      Effect cfg label d rs1 rs2 s (.endInstructionWithRd rdId (s.pc + 4))
        { s with nextPc := nextPc, icacheVar := v }
  | load {s' : Hart} {rd : Int} (hs : LoadFrame s s') (hrd : TimersOk s → IsWord rd) :
      Effect cfg label d rs1 rs2 s (.endInstructionWithRd d.rdId rd) s'
  /-- LR, and SC without a reservation. -/
  | reserve {s' : Hart} {r : Option Int} {rd : Int} (hs : LoadFrame s s') (hrd : IsWord rd) :
      Effect cfg label d rs1 rs2 s (.endInstructionWithRd d.rdId rd) { s' with reservationSet := r }
  /-- A store to RAM, SC and the AMOs. -/
  | storeRam {s' : Hart} {r : Option Int} {address value rdId rd : Int} (hs : LoadFrame s s')
      (haddress : InRam cfg address ∧ address % 4 = 0) (hvalue : IsWord value)
      (hrd : rdId = 0 ∨ (rdId = d.rdId ∧ IsWord rd)) :
      Effect cfg label d rs1 rs2 s (.endInstructionWithRd rdId rd)
        (storedRam cfg { s' with reservationSet := r } address value)
  | storeSyscon {s' : Hart} {e : End} (hs : LoadFrame s s') (he : e = .endInstruction ∨ e = .reset) :
      Effect cfg label d rs1 rs2 s e s'
  /-- A store to MMIO at a mapped address. -/
  | storeMmio {op : StoreOp} {s₁ s₂ s' : Hart} {address value : Int} {e : End}
      (hop : memOp label = some (.store op))
      (hsetup : setupLoadAndStoreValue cfg 6 rs1 d.imm (8 * op.bytes) s = .ok address s₁)
      (hs : LoadFrame s s₁ ∧ LoadFrame s₁ s₂) (haddress : mmioStart ≤ address ∧ Mapped cfg s address)
      (hvalue : IsWord value)
      (hx : storeMmioWordUnchecked cfg (opAnd address 0xfffffffc) value s₂ = .ok e s')
      (hsyscon : address ≠ syscon)
      (hwritten : if op = .sw then value = rs2 ∧ s₂ = s₁ else
        ∃ w, loadRamOrMmioWord cfg address
          { mcause := 7, mtval := effectiveAddress rs1 d.imm } s₁ = .ok w s₂ ∧
          value = insertValue w address rs2 (8 * op.bytes)) :
      Effect cfg label d rs1 rs2 s e s'
  | sret (hmode : 1 ≤ s.privilegeMode)
      (htsr : ¬(s.privilegeMode = 0b01 ∧ opAnd s.csrMstatus 0b10000000000000000000000 ≠ 0)) :
      Effect cfg label d rs1 rs2 s .endInstruction (sretHart cfg s)
  | mret (hmode : 3 ≤ s.privilegeMode) : Effect cfg label d rs1 rs2 s .endInstruction (mretHart cfg s)
  | sfence (hmode : 1 ≤ s.privilegeMode)
      (htvm : ¬(s.privilegeMode = 0b01 ∧ opAnd s.csrMstatus 0b100000000000000000000 ≠ 0)) :
      Effect cfg label d rs1 rs2 s .endInstruction { s with icacheVar := .null }
  /-- A CSR instruction that only reads. -/
  | csrRead {op : ModifyCsrOp} {x rd : Int} (hop : csrOperand d rs1 label = some (op, x))
      (himm : 0 ≤ d.imm ∧ d.imm < 4096) (hmode : opAnd (opShr d.imm 8) 0b11 ≤ s.privilegeMode)
      (hread : csrRead cfg d.imm (.var d.imm.toNat) (csrEntry d.imm.toNat).read s = .ok rd s)
      (hreads : op.readsOnly d) :
      Effect cfg label d rs1 rs2 s (.endInstructionWithRd d.rdId rd) s
  | csrWrite {op : ModifyCsrOp} {x rd : Int} (hop : csrOperand d rs1 label = some (op, x))
      (himm : 0 ≤ d.imm ∧ d.imm < 4096) (hmode : opAnd (opShr d.imm 8) 0b11 ≤ s.privilegeMode)
      (hread : csrRead cfg d.imm (.var d.imm.toNat) (csrEntry d.imm.toNat).read s = .ok rd s)
      (hwrites : ¬op.readsOnly d) (hlegal : (csrEntry d.imm.toNat).write ≠ .ILLEGAL_OP) :
      Effect cfg label d rs1 rs2 s (csrWriteEnd d.rdId rd (csrEntry d.imm.toNat).write)
        (csrWriteHart cfg (.var d.imm.toNat) (op.masked (csrEntry d.imm.toNat) x rd) s
          (csrEntry d.imm.toNat).write)
  | mlogsys (hmode : 3 ≤ s.privilegeMode) :
      Effect cfg label d rs1 rs2 s .endInstruction (mlogsysHart cfg rs1 s)

/-! ## Exceptions -/

/-- The target of a jump or a branch. -/
def jumpTarget (label : Label) (d : Fetched) (rs1 pc : Int) : Int :=
  match label with
  | .JALR => opAnd (opAnd (rs1 + d.imm) 0xfffffffe) 0xffffffff
  | _ => opAnd (pc + d.imm) 0xffffffff

/-- The exceptions of an instruction, with their causes and values. -/
inductive Raises (cfg : PageConfig) (label : Label) (d : Fetched)
    (rs1 rs2 : Int) (s : Hart) : Trap → Prop
  /-- An instruction that is undefined, or that the mode may not execute. -/
  | illegal (h : label ∈ [.ILLEGAL_OP, .PRIV, .MLOGSYS] ++ csrInstructions)
      (hpriv : label = .PRIV → d.imm ≠ 0 ∧ d.imm ≠ 1) :
      Raises cfg label d rs1 rs2 s { mcause := 2, mtval := 0 }
  | ecall (h : label = .PRIV) (himm : d.imm = 0) :
      Raises cfg label d rs1 rs2 s { mcause := opOr 0b1000 s.privilegeMode, mtval := 0 }
  | ebreak (h : label = .PRIV) (himm : d.imm = 1) :
      Raises cfg label d rs1 rs2 s { mcause := 3, mtval := s.pc }
  /-- A jump or a taken branch to a misaligned address. -/
  | jump (h : label ∈ [.JAL, .JALR] ∨ branchTaken label rs1 rs2 = some true)
      (halign : jumpTarget label d rs1 s.pc % 4 ≠ 0) :
      Raises cfg label d rs1 rs2 s { mcause := 0, mtval := jumpTarget label d rs1 s.pc }
  | misaligned {op : MemOp} (hop : memOp label = some op)
      (halign : virtualAddress op d.imm rs1 % memBytes op ≠ 0) :
      Raises cfg label d rs1 rs2 s { mcause := misalignedCause op, mtval := virtualAddress op d.imm rs1 }
  /-- A fault of the page walk. -/
  | walk {op : MemOp} {t : Trap} {s' : Hart} (hop : memOp label = some op)
      (halign : virtualAddress op d.imm rs1 % memBytes op = 0)
      (hwalk : translated cfg (accessFault op (virtualAddress op d.imm rs1)) s = .error t s') :
      Raises cfg label d rs1 rs2 s t
  /-- The physical address does not allow the access: nothing can be loaded there, a store is not
  mapped, or an atomic is not in RAM. -/
  | denied {op : MemOp} {a : Int} {s' : Hart} (hop : memOp label = some op)
      (halign : virtualAddress op d.imm rs1 % memBytes op = 0)
      (hwalk : translated cfg (accessFault op (virtualAddress op d.imm rs1)) s = .ok a s')
      (hdenied : match op with
        | .load _ =>
            ∃ t s'', loadWord cfg a (accessFault op (virtualAddress op d.imm rs1)) s' = .error t s''
        | .store _ => ¬Mapped cfg s a
        | .lr | .sc | .amo _ => ¬InRam cfg a) :
      Raises cfg label d rs1 rs2 s (accessFault op (virtualAddress op d.imm rs1))

end Mlogv32.Cpu
