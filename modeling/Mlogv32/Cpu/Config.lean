import Mlogv32.Mlog.Arith

/-!
# Constants, variable names and the memory configuration

The constants are the `inputs` of `cpu.yaml`, and `Config` holds what the CONFIG processor computes
from a world's sizes (`base.mlog.jinja`). A RAM processor has 4096 variables with generated names.
A name is represented by its number in the generated order, and `ramVar` spells it.
-/

namespace Mlogv32.Cpu
open Mlog

/-! ## Constants -/

def lookupProcSize : Int := 260
def romByteOffset : Int := 174
def romProcBytes : Int := 16384
def ramProcVars : Int := 4096
def ramStart : Int := 0x80000000
def mmioStart : Int := 0xf0000000
def syscon : Int := 0xfffffff0
def uartRxOffset : Int := 0x10
def uartTxOffset : Int := 0x14
def uartStatusOffset : Int := 0x18
def uartControlOffset : Int := 0x1c
def uartMmioSize : Int := 0x10
def uartRxRead : Int := 254
def uartRxWrite : Int := 255
def uartTxStart : Int := 256
def uartTxRead : Int := 510
def uartTxWrite : Int := 511

/-- A byte has a zero. -/
instance neZero_byte : NeZero 256 := ⟨by decide⟩

/-! ## Variable names -/

/-- `VARIABLE_NAME_CHARS_MLOGV32`, as character codes. The excluded characters are the double quote,
`#`, the apostrophe, the digits, `;`, `@` and the backslash. -/
def variableNameChars : List Nat :=
  (((List.range 94).map (· + 33)).filter fun c =>
    c ∉ [34, 35, 39, 48, 49, 50, 51, 52, 53, 54, 55, 56, 57, 59, 64, 92]).take 64

/-- The two characters of variable number `i`. -/
def ramVar (i : Nat) : Nat × Nat :=
  (variableNameChars.getD (i / 64) 0, variableNameChars.getD (i % 64) 0)

/-- The order of Python strings, on two characters. -/
def strLt (a b : Nat × Nat) : Bool := a.1 < b.1 || (a.1 == b.1 && a.2 < b.2)

/-- Entry `i` of `VARIABLE_0_TO_PAGE_OFFSET`: the character of the page, of the four pages of a RAM
processor, whose variables start with character `i`. -/
def variable0ToPageOffset (i : Nat) : Int :=
  let var := (i, (ramVar 0).2)
  if i < 32 || strLt var (ramVar 0x400) then 48
  else if strLt var (ramVar 0x800) then 49
  else if strLt var (ramVar 0xc00) then 50
  else 51

/-- What an mlog variable of a RAM processor holds: `null`, a number or the name of a variable. -/
inductive Value where
  | null
  | num (n : Int)
  | var (i : Nat)
  deriving DecidableEq, Repr

/-- The number an operation sees. An object other than `null` counts as 1. -/
def Value.toNum : Value → Int
  | .null => 0
  | .num n => n
  | .var _ => 1

/-- The result of `equal v null`. -/
def Value.isNull : Value → Bool
  | .null => true
  | .num n => n == 0
  | .var _ => false

/-! ## Configuration -/

/-- The position of a building. -/
abbrev Tile := Int × Int

/-- The processor at index `i` of a memory of width `width` with its first processor at `(x, y)`. -/
def procTile (x y : Int) (width : Nat) (i : Int) : Tile :=
  (opMod i width + x, opIdiv i width + y)

/-- A world's configuration: the values read from CONFIG, the positions of the linked processors
whose variables have the names of a RAM processor, and the contents of ROM (the byte stored at a
string index of the ROM processor on a tile). Sizes are multiples of a page. -/
structure PageConfig where
  memoryX : Int
  memoryY : Int
  memoryWidth : Nat
  programRomSize : Nat
  dataRomSize : Nat
  ramSize : Nat
  icacheSize : Nat
  uartFifoCapacity : Nat
  csrs : Tile
  incr : Tile
  csrLabels : Tile
  rom : Tile → Int → Option (Fin 256)
  memoryWidth_pos : 0 < memoryWidth
  programRomSize_aligned : 4096 ∣ programRomSize
  dataRomSize_aligned : 4096 ∣ dataRomSize
  ramSize_aligned : 4096 ∣ ramSize
  icacheSize_aligned : 4096 ∣ icacheSize
  romSize_le : programRomSize + dataRomSize ≤ 0x80000000
  ramSize_le : ramSize ≤ 0x70000000
  /-- The linked processors are not processors of RAM or the icache, and differ from each other. -/
  csrs_ne : ∀ i : Int, (programRomSize + dataRomSize : Int) / 16384 ≤ i →
    (i - (programRomSize + dataRomSize : Int) / 16384) * 16384 < ramSize + icacheSize →
    procTile memoryX memoryY memoryWidth i ≠ csrs
  incr_ne : ∀ i : Int, (programRomSize + dataRomSize : Int) / 16384 ≤ i →
    (i - (programRomSize + dataRomSize : Int) / 16384) * 16384 < ramSize + icacheSize →
    procTile memoryX memoryY memoryWidth i ≠ incr
  csrLabels_ne : ∀ i : Int, (programRomSize + dataRomSize : Int) / 16384 ≤ i →
    (i - (programRomSize + dataRomSize : Int) / 16384) * 16384 < ramSize + icacheSize →
    procTile memoryX memoryY memoryWidth i ≠ csrLabels
  csrs_ne_incr : csrs ≠ incr
  csrs_ne_csrLabels : csrs ≠ csrLabels
  incr_ne_csrLabels : incr ≠ csrLabels

/-- A configuration whose ROM fills whole processors, as the rows of a build do. -/
structure Config extends PageConfig where
  romSize_aligned : 16384 ∣ programRomSize + dataRomSize

instance : Coe Config PageConfig := ⟨Config.toPageConfig⟩

namespace PageConfig

variable (cfg : PageConfig)

def romSize : Int := cfg.programRomSize + cfg.dataRomSize

def programRomIcacheSize : Int := min (cfg.programRomSize : Int) cfg.icacheSize

def ramEnd : Int := ramStart + cfg.ramSize

def icacheEnd : Int :=
  if (cfg.icacheSize : Int) ≤ cfg.programRomSize then cfg.icacheSize
  else min (ramStart + ((cfg.icacheSize : Int) - cfg.programRomSize)) cfg.ramEnd

def ramIcacheOffset : Int := cfg.ramSize + cfg.programRomSize - ramStart

/-- The number of cells each FIFO uses. -/
def uartFifoModulo : Int := cfg.uartFifoCapacity + 1

def ramStartProc : Int := opIdiv cfg.romSize romProcBytes

/-- The tile of memory processor `i`, as `getblock` finds it. -/
def tile (i : Int) : Tile := procTile cfg.memoryX cfg.memoryY cfg.memoryWidth i

end PageConfig

end Mlogv32.Cpu
