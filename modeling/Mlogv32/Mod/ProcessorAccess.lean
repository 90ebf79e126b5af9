import Mlogv32.Build.Memory

/-!
# Access to the processor from the mod

`ProcessorAccess` reads and writes the memory processors of a CPU, which it knows by the variables
of the CPU.
-/

namespace Mlogv32.Mod
open Mlog Cpu Build

/-- The exceptions that the methods throw. -/
inductive Exn where
  | illegalArgument (message : String)
  | illegalState (message : String)
  deriving DecidableEq, Repr

/-- `require`. -/
def require {σ : Type} (c : Prop) [Decidable c] (message : String) : EStateM Exn σ Unit :=
  if c then pure () else throw (.illegalArgument message)

/-! ## ROM -/

/-- `getRomProc`: the tile of a processor that has the variable `v`. -/
def getRomProc (cfg : Config) (procs : RomStrings) (address : Nat) : Option Tile :=
  if (address : Int) < cfg.romSize then
    let index := address / 16384
    let tile :=
      (cfg.memoryX + (index % cfg.memoryWidth : Nat), cfg.memoryY + (index / cfg.memoryWidth : Nat))
    if (procs tile).isSome then some tile else none
  else none

/-- `flashRomProc`. -/
def flashRomProc (cfg : Config) (address : Nat) (data : List (Fin 256)) :
    EStateM Exn RomStrings Unit := do
  match getRomProc cfg (← get) address with
  | some tile => modify fun procs =>
      Function.update procs tile (some (data.map fun byte => byte.val + 174))
  | none => throw (.illegalState s!"ROM proc not found at address: {address}")

/-- The loop of `flashRom`: the address of the next processor and the bytes for it. -/
def flashRomStep (cfg : Config) (s : Nat × List (Fin 256)) (byte : Fin 256) :
    EStateM Exn RomStrings (Nat × List (Fin 256)) := do
  let bytes := s.2 ++ [byte]
  if bytes.length = 16384 then
    flashRomProc cfg s.1 bytes
    return (s.1 + 16384, [])
  else return (s.1, bytes)

def flashRom (cfg : Config) (data : List (Fin 256)) : EStateM Exn RomStrings Nat := do
  require (data.length % 4 = 0) "Data length must be a multiple of 4 bytes."
  require ((data.length : Int) ≤ cfg.romSize) "Data is too large to fit into the processor's ROM."
  let s ← data.foldlM (flashRomStep cfg) (0, [])
  if s.2 ≠ [] then flashRomProc cfg s.1 s.2
  return data.length

/-! ## RAM -/

/-- The contents of a file, if it exists. -/
abbrev File := Option (List (Fin 256))

/-- `getRamProc`, where `isRamProc` looks for a processor with the variables of RAM. -/
def getRamProc (cfg : Config) (isRamProc : Tile → Bool) (address : Int) : Option (Tile × Nat) :=
  if ramStart ≤ address ∧ address < cfg.ramEnd then
    let ramVariable := (address - ramStart) / 4
    let index := cfg.romSize / 16384 + ramVariable / 4096
    let tile := (cfg.memoryX + index % cfg.memoryWidth, cfg.memoryY + index / cfg.memoryWidth)
    if isRamProc tile then some (tile, (ramVariable % 4096).toNat) else none
  else none

/-- The loop of `ramWordsSequence`. A processor is read to its end, also if RAM ends inside. -/
def ramWords (cfg : Config) (procs : Procs) (isRamProc : Tile → Bool) : Nat → Int → List Value
  | 0, _ => []
  | fuel + 1, address =>
      if address < cfg.ramEnd then
        match getRamProc cfg isRamProc address with
        | some (tile, startIndex) =>
            (List.range' startIndex (4096 - startIndex)).map (procs tile) ++
              ramWords cfg procs isRamProc fuel (address + 4 * ((4096 - startIndex : Nat) : Int))
        | none => []
      else []

/-- `ramWordsSequence`, when its first element is taken. -/
def ramWordsSequence (cfg : Config) (procs : Procs) (isRamProc : Tile → Bool) (startAddress : Int) :
    EStateM Exn File (List Value) := do
  require (ramStart ≤ startAddress ∧ startAddress < cfg.ramEnd) "Start address must be within RAM."
  require (startAddress % 4 = 0) "Start address must be aligned to 4 bytes."
  return ramWords cfg procs isRamProc (cfg.ramSize + 1) startAddress

/-- `numval`. It is zero for `null`. -/
def numval : Value → Int
  | .num n => n
  | _ => 0

/-- `toUInt` of a number. -/
def toUInt (x : Int) : Nat := (min (max x 0) 0xffffffff).toNat

/-- The bytes that are written for a word. -/
def wordBytes (word : Nat) : List (Fin 256) :=
  [Fin.ofNat 256 (word / 2 ^ 24), Fin.ofNat 256 (word / 2 ^ 16), Fin.ofNat 256 (word / 2 ^ 8),
    Fin.ofNat 256 word]

def writeWord (lvar : Value) : EStateM Exn File Unit :=
  modify fun file => file.map (· ++ wordBytes (toUInt (numval lvar)))

def dumpRam (cfg : Config) (procs : Procs) (isRamProc : Tile → Bool) (startAddress bytes : Int) :
    EStateM Exn File Unit := do
  require (0 < bytes) "Bytes must be positive."
  require (bytes ≤ cfg.ramSize) "Bytes must not be greater than the RAM size."
  require (bytes % 4 = 0) "Bytes must be aligned to 4 bytes."
  -- `writes` empties the file before the sequence is started
  set (some [] : File)
  let words ← ramWordsSequence cfg procs isRamProc startAddress
  (words.take (bytes / 4).toNat).forM writeWord

structure DumpRequest where
  address : Option (BitVec 32)
  bytes : Option (BitVec 32)
  deriving DecidableEq, Repr

/-- The address that is dumped. -/
def DumpRequest.startAddress (r : DumpRequest) : BitVec 32 := r.address.getD 0x80000000

/-- The number of bytes that is dumped, by default up to the end of RAM. -/
def DumpRequest.count (cfg : Config) (r : DumpRequest) : Int :=
  (r.bytes.getD (BitVec.ofInt 32 cfg.ramEnd - r.startAddress)).toInt

/-- `handle`, with the number of bytes in its response. -/
def DumpRequest.handle (cfg : Config) (procs : Procs) (isRamProc : Tile → Bool) (r : DumpRequest) :
    EStateM Exn File Int := do
  dumpRam cfg procs isRamProc r.startAddress.toNat (r.count cfg)
  return r.count cfg

end Mlogv32.Mod
