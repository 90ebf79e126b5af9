import Mlogv32.Python.Builtins

/-!
# RAM and lookup processors

`generate_code` of `ram_proc.py`: the program of a RAM processor, whose only purpose is that its
variables exist, and the lookup processors, which map the number of a block to the name of a
variable.
-/

namespace Mlogv32.Scripts
open Python

/-! ## Variable names -/

/-- `VARIABLE_NAME_CHARS`. -/
def variableNameChars : List Char :=
  ((List.range' 33 94).map Char.ofNat).filter (· ∉ "\"#'0123456789;@\\".toList)

/-- `VARIABLE_NAME_CHARS_MLOGV32`. -/
def variableNameCharsMlogv32 : List Char := variableNameChars.take 64

inductive VariableFormat where
  | mlogv32
  | min
  | dec
  | hex
  deriving DecidableEq, Repr

/-- The names with two of the characters. -/
def pairs (chars : List Char) : List String :=
  chars.flatMap fun c1 => chars.map fun c2 => String.ofList [c1, c2]

/-- `f"{i:x}"`. -/
def hexString (i : Nat) : String := String.ofList (Nat.toDigits 16 i)

/-- What `iter_variables` yields after `i` other names. The last two formats never end. -/
def VariableFormat.iterVariables : VariableFormat → Nat → Option String
  | mlogv32, i => (pairs variableNameCharsMlogv32)[i]?
  | min, i => (pairs variableNameChars)[i]?
  | dec, i => some ("v" ++ toString i)
  | hex, i =>
    let var := hexString i
    some (if var.toList.head?.any Char.isDigit then "_" ++ var else var)

/-! ## Code -/

/-- `BLOCK_IDS`. -/
def blockIds : List String :=
  ["graphite-press", "multi-press", "silicon-smelter", "silicon-crucible", "kiln",
    "plastanium-compressor", "phase-weaver", "cryofluid-mixer", "pyratite-mixer", "blast-mixer",
    "melter", "separator", "disassembler", "spore-press", "pulverizer", "coal-centrifuge",
    "incinerator", "copper-wall", "copper-wall-large", "titanium-wall", "titanium-wall-large",
    "plastanium-wall", "plastanium-wall-large", "thorium-wall", "thorium-wall-large", "phase-wall",
    "phase-wall-large", "surge-wall", "surge-wall-large", "door", "door-large", "scrap-wall",
    "scrap-wall-large", "scrap-wall-huge", "scrap-wall-gigantic", "mender", "mend-projector",
    "overdrive-projector", "overdrive-dome", "force-projector", "shock-mine", "conveyor",
    "titanium-conveyor", "plastanium-conveyor", "armored-conveyor", "junction", "bridge-conveyor",
    "phase-conveyor", "sorter", "inverted-sorter", "router", "distributor", "overflow-gate",
    "underflow-gate", "mass-driver", "duct", "duct-router", "duct-bridge", "mechanical-pump",
    "rotary-pump", "conduit", "pulse-conduit", "plated-conduit", "liquid-router", "liquid-tank",
    "liquid-junction", "bridge-conduit", "phase-conduit", "power-node", "power-node-large",
    "surge-tower", "diode", "battery", "battery-large", "combustion-generator", "thermal-generator",
    "steam-generator", "differential-generator", "rtg-generator", "solar-panel",
    "solar-panel-large", "thorium-reactor", "impact-reactor", "mechanical-drill", "pneumatic-drill",
    "laser-drill", "blast-drill", "water-extractor", "cultivator", "oil-extractor", "core-shard",
    "core-foundation", "core-nucleus", "vault", "container", "unloader", "duo", "scatter", "scorch",
    "hail", "wave", "lancer", "arc", "parallax", "swarmer", "salvo", "segment", "tsunami", "fuse",
    "ripple", "cyclone", "foreshadow", "spectre", "meltdown", "command-center", "ground-factory",
    "air-factory", "naval-factory", "additive-reconstructor", "multiplicative-reconstructor",
    "exponential-reconstructor", "tetrative-reconstructor", "repair-point", "repair-turret",
    "payload-conveyor", "payload-router", "power-source", "power-void", "item-source", "item-void",
    "liquid-source", "liquid-void", "payload-void", "payload-source", "illuminator", "launch-pad",
    "interplanetary-accelerator", "message", "switch", "micro-processor", "logic-processor",
    "hyper-processor", "memory-cell", "memory-bank", "logic-display", "large-logic-display",
    "liquid-container", "deconstructor", "constructor", "thruster", "large-constructor",
    "payload-loader", "payload-unloader", "silicon-arc-furnace", "cliff-crusher", "plasma-bore",
    "reinforced-liquid-junction", "breach", "core-bastion", "turbine-condenser", "beam-node",
    "beam-tower", "build-tower", "impact-drill", "carbide-crucible", "surge-conveyor",
    "duct-unloader", "surge-router", "reinforced-conduit", "reinforced-liquid-router",
    "reinforced-liquid-container", "reinforced-liquid-tank", "reinforced-bridge-conduit",
    "core-citadel", "core-acropolis", "heat-reactor", "impulse-pump", "reinforced-pump",
    "electrolyzer", "oxidation-chamber", "surge-smelter", "surge-crucible", "overflow-duct",
    "large-plasma-bore", "cyanogen-synthesizer", "slag-centrifuge", "electric-heater",
    "slag-incinerator", "phase-synthesizer", "sublimate", "reinforced-container",
    "reinforced-vault", "atmospheric-concentrator", "unit-cargo-loader", "unit-cargo-unload-point",
    "chemical-combustion-chamber", "pyrolysis-generator", "regen-projector", "titan",
    "small-deconstructor", "vent-condenser", "phase-heater", "heat-redirector", "tungsten-wall",
    "tungsten-wall-large", "tank-assembler", "beryllium-wall", "beryllium-wall-large",
    "eruption-drill", "ship-assembler", "mech-assembler", "shield-projector", "beam-link",
    "world-processor", "reinforced-payload-conveyor", "reinforced-payload-router", "disperse",
    "large-shield-projector", "payload-mass-driver", "world-cell", "carbide-wall",
    "carbide-wall-large", "tank-fabricator", "mech-fabricator", "ship-fabricator",
    "reinforced-surge-wall", "radar", "blast-door", "canvas", "armored-duct", "unit-repair-tower",
    "diffuse", "prime-refabricator", "basic-assembler-module", "reinforced-surge-wall-large",
    "tank-refabricator", "mech-refabricator", "ship-refabricator", "slag-heater", "afflict",
    "shielded-wall", "lustre", "scathe", "smite", "underflow-duct", "malign", "shockwave-tower",
    "heat-source", "flux-reactor", "neoplasia-reactor", "heat-router", "large-payload-mass-driver",
    "reinforced-message", "world-message", "world-switch", "small-heat-redirector",
    "large-cliff-crusher", "advanced-launch-pad", "landing-pad", "tile-logic-display"]

def drawTriangle (vars : List String) : String := "draw triangle " ++ " ".intercalate vars

def setLine (blockId var : String) : String := "set " ++ blockId ++ " \"" ++ var ++ "\""

/-- The code of lookup processor `index`. -/
def lookupCode (index : Nat) (lookupProc : List String) : String :=
  "\n".intercalate (["set _type \"lookup\"", "set _index " ++ toString index] ++ lookupProc ++ ["stop"])

/-- The lists that `generate_code` fills. -/
structure Generator where
  lookupProcs : List String := []
  lookupProc : List String := []
  ramProc : List String := []
  ramProcLine : List String := []
  deriving DecidableEq, Repr

namespace Generator

/-- The first half of a round, on `ram_proc`. The flag is `done`. -/
def addRam (g : Generator) (ramSize : Int) (var : String) : Bool × Generator :=
  let line := g.ramProcLine ++ [var]
  let remainingSpace := ramSize - g.ramProc.length * 6
  if remainingSpace = line.length then
    let ramProc :=
      if remainingSpace > 0 then
        g.ramProc ++ [drawTriangle (line ++ List.replicate (6 - line.length) var)]
      else g.ramProc
    (true, { g with ramProc := ramProc, ramProcLine := line })
  else if line.length = 6 then
    (false, { g with ramProc := g.ramProc ++ [drawTriangle line], ramProcLine := [] })
  else (false, { g with ramProcLine := line })

/-- The second half, on `lookup_procs`. -/
def addLookup (g : Generator) (done : Bool) (var : String) : Except Exception Generator :=
  match blockIds[g.lookupProc.length]? with
  | none => .error (.indexError "list index out of range")
  | some blockId =>
    let lookupProc := g.lookupProc ++ [setLine blockId var]
    if lookupProc.length = blockIds.length ∨ done then
      .ok { g with
        lookupProcs := g.lookupProcs ++ [lookupCode g.lookupProcs.length lookupProc]
        lookupProc := [] }
    else .ok { g with lookupProc := lookupProc }

/-- The loop from the name with number `i` on. The fuel bounds the number of rounds. -/
def loop (ramSize : Int) (variableFormat : VariableFormat) :
    Nat → Nat → Generator → Option (Except Exception (List String × String))
  | 0, _, _ => none
  | fuel + 1, i, g =>
    match variableFormat.iterVariables i with
    | none => some (.error (.valueError "Ran out of variable names!"))
    | some var =>
      let r := g.addRam ramSize var
      match r.2.addLookup r.1 var with
      | .error e => some (.error e)
      | .ok g =>
        if r.1 then some (.ok (g.lookupProcs, "\n".intercalate (["stop"] ++ g.ramProc)))
        else loop ramSize variableFormat fuel (i + 1) g

end Generator

/-- The lookup processors and the RAM program. -/
def generateCode (fuel : Nat) (ramSize : Int) (variableFormat : VariableFormat) :
    Option (Except Exception (List String × String)) :=
  Generator.loop ramSize variableFormat fuel 0 {}

end Mlogv32.Scripts
