import Mlogv32.Cpu.Config

/-!
# The tables of the controller

`instructions` and `csrs` are the lists of `cpu.yaml`. `resolveInstructions` places the instruction
list (`BuildConfig._resolve_instructions`), and the controller writes the labels of the worker into
LABELS, the successor of each variable into INCR and the packed handlers into CSR_LABELS.
-/

namespace Mlogv32.Cpu
open Mlog

/-! ## LABELS -/

/-- The labels of the worker that LABELS holds. -/
inductive Label where
  | decode_LOAD | decode_custom_0 | decode_MISC_MEM | decode_OP_IMM | decode_AUIPC | decode_STORE
  | decode_AMO | decode_OP | decode_LUI | decode_BRANCH | decode_JALR | decode_JAL | decode_SYSTEM
  | decode_illegal_instruction
  | BEQ | BNE | JAL | JALR | BLT | BGE | BLTU | BGEU | LB | LH | LW | LUI | LBU | LHU | SB | SH | SW
  | AMOADD_W | AMOSWAP_W | LR_W | SC_W | AMOXOR_W | AMOOR_W | AMOAND_W | AMOMIN_W | AMOMAX_W
  | AMOMINU_W | AMOMAXU_W
  | ADDI | SUB | SLTI | SLTIU | XORI | SRA | ORI | ANDI | ADD | SLL | SLT | SLTU | XOR | SRL | OR
  | AND | MUL | MULH | MULHSU | MULHU | DIV | DIVU | REM | REMU
  | PRIV | CSRRW | CSRRS | CSRRC | AUIPC | CSRRWI | CSRRSI | CSRRCI | FENCE | SLLI | SRLI | SRAI
  | ILLEGAL_OP | MLOGSYS
  deriving DecidableEq, Repr

/-- An entry of the list `instructions`, with the defaults of `BuildConfig.Instruction`. -/
structure Instruction where
  label : Label
  count : Nat := 1
  upTo : Option Nat := none
  align : Nat := 1
  address : Option Nat := none
  deriving DecidableEq, Repr

/-- An entry with its address and its count. -/
structure ResolvedInstruction where
  label : Label
  count : Nat
  align : Nat
  address : Nat
  deriving DecidableEq, Repr

/-- The errors of `_resolve_instructions`, with the number of the entry. -/
inductive ResolveError where
  | addressBelowPrevious (i value address : Nat)
  | alignWithUpTo (i : Nat)
  | upToBelowAddress (i address upTo : Nat)
  deriving DecidableEq, Repr

/-- Place one entry. `address` is the end of the previous entry. -/
def resolveInstruction (i address : Nat) (value : Instruction) :
    Except ResolveError ResolvedInstruction := do
  let start ← match value.address with
    | none => pure ((address + value.align - 1) / value.align * value.align)
    | some a => if a < address then throw (.addressBelowPrevious i a address) else pure a
  match value.upTo with
  | none => pure ⟨value.label, value.count, value.align, start⟩
  | some upTo =>
      if value.align ≠ 1 then throw (.alignWithUpTo i)
      else if upTo < start then throw (.upToBelowAddress i start upTo)
      else pure ⟨value.label, upTo - start + 1, value.align, start⟩

def resolveInstructionsFrom (i address : Nat) :
    List Instruction → Except ResolveError (List ResolvedInstruction)
  | [] => pure []
  | value :: rest => do
      let r ← resolveInstruction i address value
      let rs ← resolveInstructionsFrom (i + 1) (r.address + r.count * r.align) rest
      pure (r :: rs)

def resolveInstructions (instructions : List Instruction) :
    Except ResolveError (List ResolvedInstruction) :=
  resolveInstructionsFrom 0 0 instructions

/-- A memory cell that holds labels. -/
abbrev LabelCell := Nat → Option Label

def LabelCell.write (cell : LabelCell) (l : Label) (i : Nat) : LabelCell :=
  fun j => if j = i then some l else cell j

/-- The unrolled form of the initialisation of an entry: one `write` per cell. -/
def initLabelsUnrolled (r : ResolvedInstruction) (i : Nat) : Nat → LabelCell → LabelCell
  | 0, cell => cell
  | n + 1, cell => initLabelsUnrolled r (i + r.align) n (cell.write r.label i)

/-- The loop form: write, advance and repeat while `i` is below `stop`. The fuel bounds the number
of repetitions. -/
def initLabelsLoop (r : ResolvedInstruction) (stop i : Nat) : Nat → LabelCell → LabelCell
  | 0, cell => cell
  | fuel + 1, cell =>
      let cell := cell.write r.label i
      let i := i + r.align
      if i < stop then initLabelsLoop r stop i fuel cell else cell

def initLabelsEntry (cell : LabelCell) (r : ResolvedInstruction) : LabelCell :=
  if r.count ≤ 4 then initLabelsUnrolled r r.address r.count cell
  else initLabelsLoop r (r.address + r.count * r.align) r.address r.count cell

def initLabels (rs : List ResolvedInstruction) : LabelCell :=
  rs.foldl initLabelsEntry fun _ => none

/-- The decoders of `cpu.yaml`, one for each value of opcode[6:2]. -/
def decoders : List Instruction :=
  [{ label := .decode_LOAD, align := 4 },
   { label := .decode_illegal_instruction, align := 4 }, -- LOAD-FP
   { label := .decode_custom_0, align := 4 },
   { label := .decode_MISC_MEM, align := 4 },
   { label := .decode_OP_IMM, align := 4 },
   { label := .decode_AUIPC, align := 4 },
   { label := .decode_illegal_instruction, align := 4 }, -- OP-IMM-32
   { label := .decode_illegal_instruction, align := 4 }, -- 48b
   { label := .decode_STORE, align := 4 },
   { label := .decode_illegal_instruction, align := 4 }, -- STORE-FP
   { label := .decode_illegal_instruction, align := 4 }, -- custom-1
   { label := .decode_AMO, align := 4 },
   { label := .decode_OP, align := 4 },
   { label := .decode_LUI, align := 4 },
   { label := .decode_illegal_instruction, align := 4, count := 10 },
   { label := .decode_BRANCH, align := 4 },
   { label := .decode_JALR, align := 4 },
   { label := .decode_illegal_instruction, align := 4 }, -- reserved
   { label := .decode_JAL, align := 4 },
   { label := .decode_SYSTEM, align := 4 },
   { label := .decode_illegal_instruction, align := 4, count := 3 }]

/-- The runtime handlers of `cpu.yaml` after BEQ, which has the address 128. -/
def handlers : List Label :=
  [.BNE, .JAL, .JALR, .BLT, .BGE, .BLTU, .BGEU, .LB, .LH, .LW, .LUI, .LBU, .LHU, .SB, .SH, .SW,
   .AMOADD_W, .AMOSWAP_W, .LR_W, .SC_W, .AMOXOR_W, .AMOOR_W, .AMOAND_W, .AMOMIN_W, .AMOMAX_W,
    .AMOMINU_W, .AMOMAXU_W, .ADDI, .SUB, .SLTI, .SLTIU, .XORI, .SRA, .ORI, .ANDI, .ADD, .SLL, .SLT,
    .SLTU, .XOR, .SRL, .OR, .AND, .MUL, .MULH, .MULHSU, .MULHU, .DIV, .DIVU, .REM, .REMU, .PRIV,
    .CSRRW, .CSRRS, .CSRRC, .AUIPC, .CSRRWI, .CSRRSI, .CSRRCI, .FENCE, .SLLI, .SRLI, .SRAI,
    .ILLEGAL_OP, .MLOGSYS]

/-- `instructions` of `cpu.yaml`. -/
def instructions : List Instruction :=
  decoders ++ { label := .BEQ, address := some 128 } :: handlers.map (fun l => { label := l }) ++
    [{ label := .ILLEGAL_OP, upTo := some 255 }]

/-- LABELS after the initialisation of the controller. -/
def labelCell : LabelCell :=
  match resolveInstructions instructions with
  | .ok rs => initLabels rs
  | .error _ => fun _ => none

/-- `read @counter LABELS i`. -/
def labels (i : Int) : Option Label := if 0 ≤ i then labelCell i.toNat else none

/-! ## INCR -/

/-- The state of the loop `init_incr`: the variable that the next write goes to, and the table. -/
structure InitIncr where
  prevVariable : Value
  address : Nat
  incr : Nat → Value

/-- `write x INCR prev_variable`. -/
def InitIncr.write (t : InitIncr) (x : Value) : Nat → Value :=
  match t.prevVariable with
  | .var i => fun j => if j = i then x else t.incr j
  | _ => t.incr

/-- One iteration: write the successor, then `null` in its place at the end of a page. -/
def initIncrStep (t : InitIncr) : InitIncr :=
  let name := if t.address < 16384 then Value.var (t.address / 4) else .null
  let t := { t with incr := t.write name }
  let t := if t.address % 4096 = 0 then { t with incr := t.write .null } else t
  { t with prevVariable := name, address := t.address + 4 }

/-- The loop runs while `address` is at most `RAM_PROC_BYTES`, from 4. -/
def initIncr : Nat → Value :=
  (initIncrStep^[4096] { prevVariable := .var 0, address := 4, incr := fun _ => .null }).incr

/-! ## CSR_LABELS -/

/-- The CSR read handlers, one for each address. -/
inductive CsrRead where
  | ILLEGAL_OP
  | csrs | zero
  /-- also `csr_read_sstatus` -/
  | mstatus
  | sip | mip | sie | mie | satp
  /-- also `csr_read_stimecmph` -/
  | stimecmp
  | mcycle | cycleh | minstret | minstreth
  /-- also `csr_read_timeh` -/
  | time
  | hpmcounter
  deriving DecidableEq, Repr

/-- The CSR write handlers. -/
inductive CsrWrite where
  | ILLEGAL_OP
  | satp | csrs | readonly | mstatus | sstatus | sip | mip | sie | mie | stimecmp | stimecmph
  | mcycle | minstret | minstreth
  deriving DecidableEq, Repr

/-- The line of a handler in the assembled worker. -/
def CsrRead.address : CsrRead → Nat
  | .ILLEGAL_OP => 781
  | .csrs => 843
  | .zero => 844
  | .mstatus => 848
  | .sip => 859
  | .mip => 866
  | .sie => 871
  | .mie => 879
  | .satp => 883
  | .stimecmp => 886
  | .mcycle => 893
  | .cycleh => 897
  | .minstret => 899
  | .minstreth => 903
  | .time => 907
  | .hpmcounter => 908

def CsrWrite.address : CsrWrite → Nat
  | .ILLEGAL_OP => 781
  | .satp => 845
  | .csrs => 846
  | .readonly => 847
  | .mstatus => 851
  | .sstatus => 855
  | .sip => 862
  | .mip => 868
  | .sie => 874
  | .mie => 881
  | .stimecmp => 889
  | .stimecmph => 891
  | .mcycle => 895
  | .minstret => 901
  | .minstreth => 905

/-- The read handler that a jump to an address reaches. -/
def CsrRead.ofAddress (a : Int) : Option CsrRead :=
  [.ILLEGAL_OP, .csrs, .zero, .mstatus, .sip, .mip, .sie, .mie, .satp, .stimecmp, .mcycle, .cycleh,
    .minstret, .minstreth, .time, .hpmcounter].find? fun l : CsrRead => (l.address : Int) = a

def CsrWrite.ofAddress (a : Int) : Option CsrWrite :=
  [.ILLEGAL_OP, .satp, .csrs, .readonly, .mstatus, .sstatus, .sip, .mip, .sie, .mie, .stimecmp,
    .stimecmph, .mcycle, .minstret, .minstreth].find? fun l : CsrWrite => (l.address : Int) = a

/-- An entry of `csrs`, with the number that `constants.py` gives to its name. -/
structure CsrEntry where
  number : Nat
  read : CsrRead
  write : CsrWrite := .ILLEGAL_OP
  mask : Nat := 0xffffffff
  deriving DecidableEq, Repr

/-- The entries of a name with `args: range [3, 32]`. -/
def hpmEntries (base : Nat) (read : CsrRead) (write : CsrWrite) : List CsrEntry :=
  (List.range 29).map fun i => { number := base + 3 + i, read := read, write := write }

/-- Unprivileged CSRs: cycle, time, instret, hpmcounter3 to 31 and their high halves. -/
def unprivilegedCsrs : List CsrEntry :=
  [{ number := 0xc00, read := .mcycle },
   { number := 0xc01, read := .time },
   { number := 0xc02, read := .minstret }] ++
  hpmEntries 0xc00 .hpmcounter .ILLEGAL_OP ++
  [{ number := 0xc80, read := .cycleh },
   { number := 0xc81, read := .time },
   { number := 0xc82, read := .minstreth }] ++
  hpmEntries 0xc80 .hpmcounter .ILLEGAL_OP

def supervisorCsrs : List CsrEntry :=
  [{ number := 0x100, read := .mstatus, write := .sstatus,
     mask := 0b00000000000011000000000100100010 }, -- sstatus
   { number := 0x104, read := .sie, write := .sie },
   { number := 0x105, read := .csrs, write := .csrs, mask := 0xfffffffc }, -- stvec
   { number := 0x106, read := .csrs, write := .csrs }, -- scounteren
   { number := 0x14d, read := .stimecmp, write := .stimecmp },
   { number := 0x15d, read := .stimecmp, write := .stimecmph },
   { number := 0x10a, read := .zero, write := .readonly }, -- senvcfg
   { number := 0x120, read := .zero, write := .readonly }, -- scountinhibit
   { number := 0x140, read := .csrs, write := .csrs }, -- sscratch
   { number := 0x141, read := .csrs, write := .csrs, mask := 0xfffffffc }, -- sepc
   { number := 0x142, read := .csrs, write := .csrs }, -- scause
   { number := 0x143, read := .csrs, write := .csrs }, -- stval
   { number := 0x144, read := .sip, write := .sip },
   { number := 0x180, read := .satp, write := .satp }]

def machineCsrs : List CsrEntry :=
  [{ number := 0xf11, read := .zero }, -- mvendorid
   { number := 0xf12, read := .zero }, -- marchid
   { number := 0xf13, read := .zero }, -- mimpid
   { number := 0xf14, read := .zero }, -- mhartid
   { number := 0xf15, read := .zero }, -- mconfigptr
   { number := 0x300, read := .mstatus, write := .mstatus,
     mask := 0b00000000011111100001100110101010 },
   { number := 0x301, read := .csrs, write := .readonly }, -- misa
   { number := 0x302, read := .csrs, write := .csrs,
     mask := 0b00000000000011001011001111111111 }, -- medeleg
   { number := 0x303, read := .csrs, write := .csrs,
     mask := 0b00000000000000000000101010100010 }, -- mideleg
   { number := 0x304, read := .mie, write := .mie },
   { number := 0x305, read := .csrs, write := .csrs, mask := 0xfffffffc }, -- mtvec
   { number := 0x306, read := .csrs, write := .csrs }, -- mcounteren
   { number := 0x310, read := .zero, write := .readonly }, -- mstatush
   { number := 0x312, read := .zero, write := .readonly }, -- medelegh
   { number := 0x340, read := .csrs, write := .csrs }, -- mscratch
   { number := 0x341, read := .csrs, write := .csrs, mask := 0xfffffffc }, -- mepc
   { number := 0x342, read := .csrs, write := .csrs }, -- mcause
   { number := 0x343, read := .csrs, write := .csrs }, -- mtval
   { number := 0x344, read := .mip, write := .mip,
     mask := 0b00000000000000000000001000000010 },
   { number := 0x30a, read := .zero, write := .readonly }, -- menvcfg
   { number := 0x31a, read := .zero, write := .readonly }, -- menvcfgh
   { number := 0xb00, read := .mcycle, write := .mcycle },
   { number := 0xb02, read := .minstret, write := .minstret }] ++
  hpmEntries 0xb00 .zero .readonly ++
  [{ number := 0xb80, read := .csrs, write := .csrs }, -- mcycleh
   { number := 0xb82, read := .minstreth, write := .minstreth }] ++
  hpmEntries 0xb80 .zero .readonly ++
  [{ number := 0x320, read := .zero, write := .readonly }] ++ -- mcountinhibit
  hpmEntries 0x320 .zero .readonly -- mhpmevent3 to 31

/-- `csrs` of `cpu.yaml`. -/
def csrEntries : List CsrEntry := unprivilegedCsrs ++ supervisorCsrs ++ machineCsrs

/-- The packed value `mask * 1000000 + write * 1000 + read`. -/
def packCsr (mask : Nat) (write : CsrWrite) (read : CsrRead) : Int :=
  mask * 1000000 + write.address * 1000 + read.address

/-- CSR_LABELS after the initialisation: every variable is first given the illegal handlers. -/
def initCsrLabels : Nat → Value :=
  csrEntries.foldl (fun t e j => if j = e.number then .num (packCsr e.mask e.write e.read) else t j)
    fun _ => .num (packCsr 0 .ILLEGAL_OP .ILLEGAL_OP)

end Mlogv32.Cpu
