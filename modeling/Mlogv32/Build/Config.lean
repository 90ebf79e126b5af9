import Mlogv32.Build.Memory
import Mlogv32.Python.Int

/-!
# The configuration string of build

`parse_config_str`, and the format that the documentation of `build` gives for `--config`.
-/

namespace Mlogv32.Build
open Python

/-! ## parse_config_str -/

def defaultKeys : List String := ["rom", "ram", "icache", "width", "x_offset", "drom"]

/-- `dict[str, int]`. -/
abbrev Inputs := String → Option Int

def Inputs.set (inputs : Inputs) (key : String) (value : Int) : Inputs := fun k =>
  if k = key then some value else inputs k

/-- The key and the value of an item. The value goes on after the first `=`. -/
def splitItem (item : List Char) (defaultKey : String) : String × List Char :=
  if '=' ∈ item then (String.ofList (item.takeWhile (· ≠ '=')), (item.dropWhile (· ≠ '=')).drop 1)
  else (defaultKey, item)

/-- The keys and the values of a configuration. -/
def entries (config : String) : List (String × List Char) :=
  List.zipWith splitItem (config.toList.splitOn ',') defaultKeys

/-- The loop body. -/
def readEntry (u : Unicode) (inputs : Inputs) (e : String × List Char) : Option Inputs :=
  (int u e.2).map (inputs.set e.1)

def parseConfigStr (u : Unicode) (config : String) : Option ConfigArgs := do
  if 2 ≤ (config.toList.splitOn ',').length ∧ (config.toList.splitOn ',').length ≤ 4 then
    let inputs ← (entries config).foldlM (readEntry u) fun _ => none
    let rom ← inputs "rom"
    let ram ← inputs "ram"
    let icache := (inputs "icache").getD (rom + ram)
    let width := (inputs "width").getD 32
    let xOffset := (inputs "x_offset").getD (-9)
    let drom := (inputs "drom").getD 0
    let rows := rom + drom + ram + icache
    return {
      uartFifoCapacity := 253
      mtimeFrequency := 1000000
      memoryXOffset := xOffset
      memoryYOffset := -16 - rows
      memoryWidth := width
      programRomRows := rom
      dataRomRows := drom
      ramRows := ram
      icacheRows := icache }
  else none

/-! ## The documented format -/

inductive ConfigKey where
  | rom | ram | icache | width | xOffset | drom
  deriving DecidableEq, Repr

def ConfigKey.name : ConfigKey → String
  | rom => "rom"
  | ram => "ram"
  | icache => "icache"
  | width => "width"
  | xOffset => "x_offset"
  | drom => "drom"

/-- The keys that items without a key stand for. -/
def ConfigKey.places : List ConfigKey := [rom, ram, icache, width, xOffset, drom]

/-- An item of the format: an integer, with or without the name of its key. -/
structure ConfigItem where
  key : ConfigKey
  named : Bool
  literal : List Char
  base : Nat
  digits : List Nat
  value : Int
  signed : SignedLiteral base digits literal value

def ConfigItem.text (i : ConfigItem) : List Char :=
  if i.named then i.key.name.toList ++ '=' :: i.literal else i.literal

/-- The configuration is in the documented format, with these items. -/
structure Documented (config : String) (items : List ConfigItem) : Prop where
  text : config.toList = [','].intercalate (items.map ConfigItem.text)
  count : 2 ≤ items.length ∧ items.length ≤ 6
  places : ∀ p ∈ items.zip ConfigKey.places, p.1.named = false → p.1.key = p.2
  once : (items.map ConfigItem.key).Nodup
  rom : .rom ∈ items.map ConfigItem.key
  ram : .ram ∈ items.map ConfigItem.key

def given (items : List ConfigItem) (key : ConfigKey) : Option Int :=
  (items.find? fun i => i.key = key).map ConfigItem.value

/-- The configuration that the items and the documented defaults mean. -/
def documentedArgs (items : List ConfigItem) : ConfigArgs :=
  let rom := (given items .rom).getD 0
  let ram := (given items .ram).getD 0
  let icache := (given items .icache).getD (rom + ram)
  let drom := (given items .drom).getD 0
  { uartFifoCapacity := 253
    mtimeFrequency := 1000000
    memoryXOffset := (given items .xOffset).getD (-9)
    memoryYOffset := -16 - (rom + drom + ram + icache)
    memoryWidth := (given items .width).getD 32
    programRomRows := rom
    dataRomRows := drom
    ramRows := ram
    icacheRows := icache }

/-- `parse_config_str` returns the documented configurations and nothing else. -/
def ParsesDocumented (u : Unicode) (config : String) : Prop :=
  ∀ a, parseConfigStr u config = some a ↔ ∃ items, Documented config items ∧ a = documentedArgs items

/-! ## The strings that differ -/

/-- A documented configuration with five or six items. -/
def Longer (config : String) : Prop := ∃ items, Documented config items ∧ 4 < items.length

/-- A documented configuration with an integer over the limit of `int`. -/
def OverLimit (config : String) : Prop :=
  ∃ items, Documented config items ∧ ∃ i ∈ items, ¬WithinLimit i.base i.digits

/-- Two to four items with integers, `rom` and `ram` among them, where a key is unknown or given
twice, or where an integer is not written as a literal. -/
structure Loose (u : Unicode) (config : String) : Prop where
  count : 2 ≤ (config.toList.splitOn ',').length ∧ (config.toList.splitOn ',').length ≤ 4
  integers : ∀ e ∈ entries config, int u e.2 ≠ none
  rom : "rom" ∈ (entries config).map Prod.fst
  ram : "ram" ∈ (entries config).map Prod.fst
  loose : (∃ e ∈ entries config, ∀ key : ConfigKey, key.name ≠ e.1) ∨
    ¬((entries config).map Prod.fst).Nodup ∨
    ∃ e ∈ entries config, ∀ base ds v, ¬SignedLiteral base ds e.2 v

end Mlogv32.Build
