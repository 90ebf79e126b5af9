import Mlogv32.Cpu.Hart
import Mlogv32.Cpu.Translate

/-!
# Translation in the debugger

`debugger.mlog` has its own copy of the page walk, of the RAM and ROM lookup and of `trap`. In
`loop` it translates `pc`, or the address `DBG_VIRT_ADDR` that a user has set, and loads the word
there. Its variables `satp`, `mstatus`, `pc`, `privilege_mode` and `effective_privilege_mode` are
copies of the hart's, so the state of the hart stands for them.
-/

namespace Mlogv32.Debugger
open Cpu Mlog

/-- What `trap_cause` holds after `trap`: one of its strings, or `mcause`. -/
inductive TrapCause where
  | misalign
  | accessFlt
  | pageFlt
  | mcause (n : Int)
  deriving DecidableEq, Repr

/-- The variables that the walk fills in for the display. The empty string is `none`. -/
structure Entries where
  addr1 : Option Int := none
  pte1 : Option Int := none
  addr0 : Option Int := none
  pte0 : Option Int := none
  deriving DecidableEq, Repr

/-- A part of `loop` that can jump to `trap`. -/
abbrev Op := EStateM TrapCause Entries

def trap (mcause : Int) : TrapCause :=
  if mcause = 0 then .misalign
  else if mcause = 1 then .accessFlt
  else if mcause = 12 then .pageFlt
  else .mcause mcause

/-! ## Physical loads -/

def accessRam (cfg : PageConfig) (address : Int) : Tile × Value :=
  let address := address - ramStart
  let address := opIdiv address 4
  let ramIndex := opIdiv address ramProcVars + cfg.ramStartProc
  let ramX := opMod ramIndex cfg.memoryWidth + cfg.memoryX
  let ramY := opIdiv ramIndex cfg.memoryWidth + cfg.memoryY
  let address := opMod address ramProcVars
  let lookup := opIdiv address lookupProcSize
  let block := opMod address lookupProcSize
  ((ramX, ramY), lookupProc lookup block)

/-- The end of `load_word`: the bytes of a RAM value in the other order. -/
def swapEndianness (value : Int) : Int :=
  let result := opAnd (opShr value 24) 0xff
  let tmp := opAnd (opShl value 8) 0xff0000
  let result := opOr result tmp
  let tmp := opAnd (opShr value 8) 0xff00
  let result := opOr result tmp
  let tmp := opAnd (opShl value 24) 0xff000000
  opOr result tmp

def loadRomWordUnchecked (cfg : PageConfig) (address : Int) : Int :=
  let address := opAnd address 0xfffffffc
  let romIndex := opIdiv address romProcBytes
  let strIndex := opMod address romProcBytes
  let romX := opMod romIndex cfg.memoryWidth + cfg.memoryX
  let romY := opIdiv romIndex cfg.memoryWidth + cfg.memoryY
  let byte0 := romChar cfg (romX, romY) strIndex
  let byte1 := romChar cfg (romX, romY) (strIndex + 1)
  let byte2 := romChar cfg (romX, romY) (strIndex + 2)
  let rom := romChar cfg (romX, romY) (strIndex + 3)
  let result := byte0 + opShl byte1 8 + opShl byte2 16 + opShl rom 24
  max (result - romByteOffset * (1 + 2 ^ 8 + 2 ^ 16 + 2 ^ 24)) 0

/-- `load_word`. Unlike the worker's, it traps on every address of MMIO. -/
def loadWord (cfg : PageConfig) (procs : Procs) (mcause address : Int) : Op Int := do
  if address < cfg.romSize then return loadRomWordUnchecked cfg address
  if address ≥ mmioStart then throw (trap mcause)
  if address < ramStart then throw (trap mcause)
  if address ≥ cfg.ramEnd then throw (trap mcause)
  let slot := accessRam cfg address
  return swapEndianness (readProc procs slot.1 slot.2 .null).toNum

/-! ## The page walk -/

def validIndices : List Int := [1, 65, 67, 71, 73, 75, 79]

/-- Character `i` of the string of step 3. -/
def validChar (i : Int) : Int := if i ∈ validIndices then 49 else 48

/-- Character `i` of `_88__2:44`. -/
def maskChar (i : Int) : Int :=
  ([95, 56, 56, 95, 95, 50, 58, 52, 52] : List Int).getD i.toNat 0

/-- `translate_virtual_address__page_fault`. -/
def pageFault (mcause : Int) : TrapCause := trap (max (mcause + 8) 12)

/-- Steps 5 to 8. -/
def translateStep5 (s : Hart) (mcause mtval result nonlocal2 : Int) : Op Int := do
  let uPriv := opOr (opAnd result 0b10000) s.effectivePrivilegeMode
  let sum := opAnd s.csrMstatus 0b1000000000000000000
  -- the second check is skipped for a load or a store if SUM is set
  if uPriv = 0 ∨ ((mcause = 1 ∨ sum = 0) ∧ uPriv = 0b10001) then throw (pageFault mcause)
  let dXWR := opAnd result 0b10001110
  let mxr := opAnd (opShr s.csrMstatus 19) 0b1
  let mask := opAnd dXWR (maskChar (mcause + mxr))
  if mask = 0 then throw (pageFault mcause)
  -- step 6
  if nonlocal2 ≠ 10 ∧ opAnd result 0xffc00 ≠ 0 then throw (pageFault mcause)
  -- step 7
  if mcause = 7 ∧ dXWR < 0b10000000 then throw (pageFault mcause)
  -- step 8
  let result := opShl result 2
  if result > 0xffffffff then throw (trap mcause)
  if nonlocal2 > 10 then
    return opOr (opAnd mtval 0x3fffff) (opAnd result 0xffc00000)
  else
    return opOr (opAnd mtval 0xfff) (opAnd result 0xfffff000)

/-- Steps 2 to 4, with the table at `a`. The first argument bounds the number of rounds, of which
there are two at most: `nonlocal2` is 20 in the first and 10 in the second. -/
def translateStep2 (cfg : PageConfig) (s : Hart) (mcause mtval : Int) : Nat → Int → Int → Op Int
  | 0, _, _ => throw (pageFault mcause)
  | rounds + 1, a, nonlocal2 => do
      let address := opAnd (opShr mtval nonlocal2) 0b111111111100 + a
      modify fun e =>
        if nonlocal2 = 10 then { e with addr0 := some address } else { e with addr1 := some address }
      let result ← loadWord cfg s.procs mcause address
      modify fun e =>
        if nonlocal2 = 10 then { e with pte0 := some result } else { e with pte1 := some result }
      -- step 3
      if validChar (opAnd result 0b1001111) ≠ 49 then throw (pageFault mcause)
      -- step 4
      if opAnd result 0b1010 ≠ 0 then translateStep5 s mcause mtval result nonlocal2
      else if nonlocal2 ≠ 20 then throw (pageFault mcause)
      else translateStep2 cfg s mcause mtval rounds (opShl (opAnd result 0xfffffc00) 2) 10

def translateVirtualAddress (cfg : PageConfig) (s : Hart) (mcause mtval : Int) : Op Int := do
  let satp := s.csr cfg satpCsr
  if satp < 0x80000000 then return mtval
  let a := opAnd satp 0x3fffff * 4096
  translateStep2 cfg s mcause mtval 2 a 20

/-! ## The display -/

/-- A variable that holds a number, or the string that `trap` has put there. -/
inductive Shown where
  | num (n : Int)
  | cause (c : TrapCause)
  deriving DecidableEq, Repr

/-- The results of a round of `loop`. `instruction` is the empty string if the translation traps. -/
structure Display where
  entries : Entries
  physicalAddress : Shown
  instruction : Option Shown
  trapCause : Option TrapCause
  deriving DecidableEq, Repr

/-- `loop`, from the reset of `addr1` to `set instruction result`. -/
def loop (cfg : PageConfig) (s : Hart) (dbgVirtAddr : Option Int) : Display :=
  let address := dbgVirtAddr.getD s.pc
  let mcause := if dbgVirtAddr.isNone then 1 else 5
  let translated : EStateM.Result TrapCause Entries Int :=
    if s.privilegeMode < 0b11 then translateVirtualAddress cfg s mcause address {} else .ok address {}
  match translated with
  | .error c entries =>
      { entries, physicalAddress := .cause c, instruction := none, trapCause := some c }
  | .ok a entries =>
      match loadWord cfg s.procs mcause a entries with
      | .error c _ =>
          { entries, physicalAddress := .num a, instruction := some (.cause c), trapCause := some c }
      | .ok w _ =>
          { entries, physicalAddress := .num a, instruction := some (.num w), trapCause := none }

end Mlogv32.Debugger
