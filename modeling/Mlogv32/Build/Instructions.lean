import Mlogv32.Mlog.Arith
import Mlogv32.Python.Float

/-!
# The label table of a build

`BuildConfig._resolve_instructions` places the entries of `instructions`, and the controller that is
generated from them writes the labels of the worker into LABELS.
-/

namespace Mlogv32.Build
open Mlog Python

/-! ## BuildConfig -/

/-- `BuildConfig.Instruction`. Its fields are validated. -/
structure Instruction where
  label : String
  count : Int := 1
  upTo : Option Int := none
  align : Int := 1
  address : Option Int := none
  one_le_count : 1 ≤ count := by decide
  one_le_align : 1 ≤ align := by decide

/-- The copy of an entry, with its address and its count. -/
structure ResolvedInstruction where
  label : String
  count : Int
  align : Int
  address : Int
  deriving DecidableEq, Repr

/-- The address after the cells of an entry. -/
def ResolvedInstruction.stop (r : ResolvedInstruction) : Int := r.address + r.count * r.align

/-- The exceptions, with what their messages show. -/
inductive ResolveError where
  /-- "Instruction i is at address value, but the previous instruction was at address address" -/
  | addressBelowPrevious (i : Nat) (value address : Int)
  /-- "Instruction i is at address address, but up_to is upTo" -/
  | upToBelowAddress (i : Nat) (address upTo : Int)
  | raised (e : Exception)
  deriving DecidableEq, Repr

/-- The address of an entry after an entry that ends at `address`. -/
def resolveAddress (i : Nat) (address : Int) (value : Instruction) : Except ResolveError Int :=
  match value.address with
  | none =>
    match trueDivide address value.align with
    | .error e => .error (.raised e)
    | .ok q => .ok (⌈q⌉ * value.align)
  | some a => if a < address then .error (.addressBelowPrevious i a address) else .ok a

def resolveInstruction (i : Nat) (address : Int) (value : Instruction) :
    Except ResolveError ResolvedInstruction :=
  match resolveAddress i address value with
  | .error e => .error e
  | .ok address =>
    match value.upTo with
    | none => .ok ⟨value.label, value.count, value.align, address⟩
    | some upTo =>
      if value.align ≠ 1 then .error (.raised (.assertionError "Align != 1 is not supported with up_to"))
      else if upTo < address then .error (.upToBelowAddress i address upTo)
      else .ok ⟨value.label, upTo - address + 1, value.align, address⟩

/-- The loop from entry `i` on. -/
def resolveInstructionsFrom (i : Nat) (address : Int) :
    List Instruction → Except ResolveError (List ResolvedInstruction)
  | [] => .ok []
  | value :: instructions =>
    match resolveInstruction i address value with
    | .error e => .error e
    | .ok r => (resolveInstructionsFrom (i + 1) r.stop instructions).map (r :: ·)

/-- `_resolve_instructions`. -/
def resolveInstructions (instructions : List Instruction) :
    Except ResolveError (List ResolvedInstruction) :=
  resolveInstructionsFrom 0 0 instructions

/-! ## The template of the controller -/

/-- The initialisation of an entry. -/
inductive InitLabels where
  /-- A `write` for each index. -/
  | unrolled (value : Int) (indices : List Int)
  /-- `set i start`, and a loop of `write`, `op add i i align` and `jump lessThan i stop`. -/
  | loop (value start align stop : Int)
  deriving DecidableEq, Repr

/-- The values of `ns.i` in the unrolled form. -/
def unroll (i align : Int) : Nat → List Int
  | 0 => []
  | count + 1 => i :: unroll (i + align) align count

/-- The code of an entry. A label that the worker does not have is an error of the template. -/
def initLabels (labels : String → Option Int) (instruction : ResolvedInstruction) : Option InitLabels :=
  (labels instruction.label).map fun value =>
    if instruction.count ≤ 4 then
      .unrolled value (unroll instruction.address instruction.align instruction.count.toNat)
    else .loop value instruction.address instruction.align (instruction.address +
      instruction.count * instruction.align)

/-- The code of all entries, in turn. -/
def initLabelsAll (labels : String → Option Int) (instructions : List ResolvedInstruction) :
    Option (List InitLabels) :=
  instructions.mapM (initLabels labels)

/-! ## The controller -/

def InitLabels.value : InitLabels → Int
  | unrolled value _ => value
  | loop value _ _ _ => value

/-- The indices that the loop writes, from `i` on. The fuel bounds the number of its rounds. -/
def loopIndices (align stop : Int) : Nat → Int → Option (List Int)
  | 0, _ => none
  | fuel + 1, i =>
    let next := toDouble (i + align)
    if next < stop then (loopIndices align stop fuel next).map (i :: ·) else some [i]

/-- The indices that the code of an entry writes, in order. -/
def InitLabels.indices (fuel : Nat) : InitLabels → Option (List Int)
  | unrolled _ indices => some (indices.map toDouble)
  | loop _ start align stop => loopIndices (toDouble align) (toDouble stop) fuel (toDouble start)

/-- `write value LABELS i`. A memory cell ignores a write past its end. -/
def writeCell (value : Int) (cell : List Int) (i : Int) : List Int :=
  if 0 ≤ i then cell.set i.toNat value else cell

/-- What a cell holds at an index. -/
def readCell (cell : List Int) (i : Int) : Option Int := if 0 ≤ i then cell[i.toNat]? else none

/-- The cell after the initialisation. -/
def runInitLabels (fuel : Nat) : List InitLabels → List Int → Option (List Int)
  | [], cell => some cell
  | code :: codes, cell => do
    let indices ← code.indices fuel
    runInitLabels fuel codes (indices.foldl (writeCell code.value) cell)

end Mlogv32.Build
