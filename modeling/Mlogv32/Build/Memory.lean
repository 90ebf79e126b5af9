import Mlogv32.Cpu.Hart

/-!
# The memory of a generated schematic

`build` of the preprocessor places the memory processors in rows, and the template of the CONFIG
processor (`base.mlog.jinja`) gives the CPU the sizes and the place of the rows.
-/

namespace Mlogv32.Build
open Mlog Cpu

/-! ## Configuration -/

/-- `ConfigArgs`. -/
structure ConfigArgs where
  uartFifoCapacity : Int
  dataRomRows : Int
  mtimeFrequency : Int
  memoryXOffset : Int
  memoryYOffset : Int
  memoryWidth : Int
  programRomRows : Int
  ramRows : Int
  icacheRows : Int
  deriving DecidableEq, Repr

namespace ConfigArgs

variable (a : ConfigArgs)

def rowsToBytes : Int := a.memoryWidth * 16384

def programRomSize : Int := a.programRomRows * a.rowsToBytes

def dataRomSize : Int := a.dataRomRows * a.rowsToBytes

def ramSize : Int := a.ramRows * a.rowsToBytes

def icacheSize : Int := a.icacheRows * a.rowsToBytes

def romHeight : Int := a.programRomRows + a.dataRomRows

def memoryHeight : Int := a.romHeight + a.ramRows + a.icacheRows

/-- What the CPU reads about the memory from a CONFIG processor with these constants at `this`. -/
structure Configures (this : Tile) (cfg : Config) : Prop where
  memoryX : cfg.memoryX = this.1 + a.memoryXOffset
  memoryY : cfg.memoryY = this.2 + a.memoryYOffset
  memoryWidth : (cfg.memoryWidth : Int) = a.memoryWidth
  programRomSize : (cfg.programRomSize : Int) = a.programRomSize
  dataRomSize : (cfg.dataRomSize : Int) = a.dataRomSize
  ramSize : (cfg.ramSize : Int) = a.ramSize
  icacheSize : (cfg.icacheSize : Int) = a.icacheSize

end ConfigArgs

/-! ## Blocks -/

/-- A processor of the memory: a ROM processor sets `v` to a string, and a RAM processor has the
variables. -/
inductive MemoryBlock where
  | rom (payload : List Nat)
  | ram
  deriving DecidableEq, Repr

def lenrange (start length : Int) : List Int :=
  (List.range length.toNat).map fun (k : Nat) => start + (k : Int)

/-- The bytes of `--bin`. The slice of the zeros has the wrong length. -/
def padData (data : List (Fin 256)) : List (Fin 256) :=
  if data.length % 4 ≠ 0 then data ++ [0, 0, 0, 0].take (data.length % 4) else data

/-- The bytes for ROM. -/
def binData : Option (List (Fin 256)) → List (Fin 256)
  | some data => padData data
  | none => []

/-- The loop body, for the column x and the row y. `i` counts the bytes that have a processor. -/
def addBlock (romHeight baseY : Int) (data : List (Fin 256)) (s : Nat × List (Tile × MemoryBlock))
    (pos : Int × Int) :
    Nat × List (Tile × MemoryBlock) :=
  let tile := (pos.1, baseY + pos.2)
  if pos.2 < romHeight then
    if s.1 < data.length then
      (s.1 + 16384, s.2 ++ [(tile, .rom (((data.drop s.1).take 16384).map fun c => 174 + c.val))])
    else (s.1, s.2 ++ [(tile, .rom [])])
  else (s.1, s.2 ++ [(tile, .ram)])

def memoryPositions (baseX width height : Int) : List (Int × Int) :=
  (lenrange 0 height).flatMap fun y => (lenrange baseX width).map fun x => (x, y)

/-- The memory part of `build`, with the CONFIG processor at `configLink`. -/
def buildMemory (a : ConfigArgs) (configLink : Tile) (bin : Option (List (Fin 256))) :
    List (Tile × MemoryBlock) :=
  let baseX := configLink.1 + a.memoryXOffset
  let baseY := configLink.2 + a.memoryYOffset
  ((memoryPositions baseX a.memoryWidth a.memoryHeight).foldl
    (addBlock a.romHeight baseY (binData bin)) (0, [])).2

/-- The schematic in the world, with its CONFIG processor at `this`. -/
def placeBlocks (configLink this : Tile) (blocks : List (Tile × MemoryBlock)) :
    List (Tile × MemoryBlock) :=
  blocks.map fun b => ((b.1.1 - configLink.1 + this.1, b.1.2 - configLink.2 + this.2), b.2)

/-! ## ROM -/

/-- The strings in the variables `v` of the ROM processors. -/
abbrev RomStrings := Tile → Option (List Nat)

/-- The strings of the placed processors, when they have run. -/
def romStrings (blocks : List (Tile × MemoryBlock)) : RomStrings := fun t =>
  match blocks.lookup t with
  | some (.rom payload) => some payload
  | _ => none

/-- The bytes behind the characters. -/
def RomStrings.bytes (v : RomStrings) (t : Tile) (i : Int) : Option (Fin 256) :=
  if 0 ≤ i then (v t).bind fun s => s[i.toNat]?.map fun c => Fin.ofNat 256 (c - 174) else none

/-- A CPU with these strings in its ROM. -/
def withRom (cfg : Config) (v : RomStrings) : Config := { cfg with rom := v.bytes }

/-! ## Slots -/

/-- The character of the byte at an address, as `load_rom_word_unchecked` finds it: the processor
and the index in its string. -/
def romSlot (cfg : Config) (address : Int) : Tile × Int :=
  let aligned := opAnd address 0xfffffffc
  (cfg.tile (opIdiv aligned romProcBytes), opMod aligned romProcBytes + (address - aligned))

/-- The icache slot that `main` reads, from `main__access_rom_icache` or for the address in RAM. -/
def mainIcacheSlot (cfg : Config) (address : Int) : Tile × Value :=
  if address < cfg.programRomIcacheSize then accessRamRaw cfg (cfg.ramSize + address)
  else accessRamRaw cfg (cfg.ramIcacheOffset + address)

/-- The addresses that have an icache slot. -/
def IcacheCovered (cfg : Config) (address : Int) : Prop :=
  (0 ≤ address ∧ address < cfg.programRomIcacheSize) ∨ (ramStart ≤ address ∧ address < cfg.icacheEnd)

end Mlogv32.Build
