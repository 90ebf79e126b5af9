import Mlogv32.Python.Builtins
import Mathlib.Data.List.Sort

/-!
# Local variables of templates

The extension `LocalVariables` gives the names of a template to the local variables of mlog. A name
gets an index when it is first used, and gives it back when it is freed.
-/

namespace Mlogv32.Template
open Python

/-- The variables of `LocalVariablesEnv`. `handedOut` is a history that no operation reads: the
indices returned for a name. -/
structure Locals where
  localVariableIndex : Int
  largestLocalVariable : Int
  /-- `dict[str, int]`. -/
  localVariableCache : String → Option Int
  /-- Sorted in reverse order. -/
  freedLocalVariables : List Int
  handedOut : List Int

/-- `LocalVariablesEnv.extend`. -/
def Locals.extend : Locals :=
  { localVariableIndex := 1, largestLocalVariable := 0, localVariableCache := fun _ => none,
    freedLocalVariables := [], handedOut := [] }

abbrev Op := EStateM Exception Locals

/-- An argument of `declare_locals` and `free_locals`. -/
inductive Names where
  | str (name : String)
  | list (names : List Names)

/-! ## local_variable -/

/-- The argument of `local_variable`. -/
inductive Variable where
  | str (name : String)
  | int (i : Int)
  | none
  deriving DecidableEq, Repr

/-- The smallest freed index, or the next one. -/
def takeIndex : Op Int := do
  let env ← get
  match env.freedLocalVariables.getLast? with
  | some i =>
      set { env with freedLocalVariables := env.freedLocalVariables.dropLast }
      return i
  | none =>
      set { env with localVariableIndex := env.localVariableIndex + 1 }
      return env.localVariableIndex

/-- `f"local{i}"` for a name. -/
def handOut (i : Int) : Op String := do
  modify fun env => { env with handedOut := i :: env.handedOut }
  return s!"local{i}"

def localVariable (name : Variable) (declare : Bool) : Op String := do
  match name with
  | .str name =>
      match (← get).localVariableCache name with
      | some i => handOut i
      | none =>
          let i ← takeIndex
          if !declare && startswith name "$" then
            throw (.valueError s!"Undeclared local variable: ${name}")
          modify fun env =>
            { env with
              localVariableCache := Function.update env.localVariableCache name (some i)
              largestLocalVariable := max i env.largestLocalVariable }
          handOut i
  | .int i =>
      if i < 1 then throw (.valueError s!"Invalid local variable index: {i}")
      modify fun env => { env with localVariableIndex := i + 1 }
      return s!"local{i}"
  | .none =>
      let i ← takeIndex
      return s!"local{i}"

/-! ## reset_locals -/

def resetLocals (i : Int) : Op Unit := do
  if i < 1 then throw (.valueError s!"Invalid local variable index: {i}")
  modify fun env =>
    { env with
      localVariableIndex := i
      localVariableCache := fun _ => none
      freedLocalVariables := [] }

/-! ## declare_locals -/

/-- The key of a name in the cache. -/
def key (name : String) : String := removeprefix name "$"

def declareName (name : String) : Op Unit := do
  if !startswith name "$$" then throw (.valueError s!"Invalid local variable declaration: {name}")
  let _ ← localVariable (.str (key name)) true

mutual

/-- The loop body. A list is declared by a call with the default arguments `i = 1` and `reset =
True`. -/
def declareArg : Names → Op Unit
  | .str name => declareName name
  | .list names => do
      resetLocals 1
      declareArgs names

/-- The loop. -/
def declareArgs : List Names → Op Unit
  | [] => return
  | arg :: args => do
      declareArg arg
      declareArgs args

end

def declareLocals (names : List Names) (i : Int) (reset : Bool) : Op Unit := do
  if reset then resetLocals i
  declareArgs names

/-- `self.declare_locals(*name)`. -/
theorem declareArg_list (names : List Names) :
    declareArg (.list names) = declareLocals names 1 true := rfl

/-! ## free_locals -/

def freeName (name : String) : Op Unit := do
  if !startswith name "$" then throw (.valueError s!"Invalid local variable: {name}")
  match (← get).localVariableCache (key name) with
  | none => throw (.valueError s!"Unknown local variable: {name}")
  | some i =>
      modify fun env =>
        { env with localVariableCache := Function.update env.localVariableCache (key name) none }
      if i ∈ (← get).freedLocalVariables then
        throw (.assertionError s!"Internal error: variable {i} was freed twice")
      modify fun env => { env with freedLocalVariables := env.freedLocalVariables ++ [i] }

/-- `freed.sort(reverse=True)`. -/
def sortFreed : Op Unit :=
  modify fun env => { env with freedLocalVariables := env.freedLocalVariables.insertionSort (· ≥ ·) }

mutual

/-- The loop body. A list is freed by a call of its own. -/
def freeArg : Names → Op Unit
  | .str name => freeName name
  | .list names => do
      freeArgs names
      sortFreed

/-- The loop. -/
def freeArgs : List Names → Op Unit
  | [] => return
  | arg :: args => do
      freeArg arg
      freeArgs args

end

def freeLocals (names : List Names) : Op Unit := do
  freeArgs names
  sortFreed

/-- `self.free_locals(*name)`. -/
theorem freeArg_list (names : List Names) : freeArg (.list names) = freeLocals names := rfl

/-! ## Templates -/

/-- The calls of a template. A number as the name would set the index, which only the prologue of
the workers does. -/
inductive Call where
  | resetLocals (i : Int)
  | declareLocals (names : List Names) (i : Int) (reset : Bool)
  | freeLocals (names : List Names)
  | localVariable (name : Option String) (declare : Bool)

def Call.body : Call → Op Unit
  | resetLocals i => Template.resetLocals i
  | declareLocals names i reset => Template.declareLocals names i reset
  | freeLocals names => Template.freeLocals names
  | localVariable (some name) declare => do let _ ← Template.localVariable (.str name) declare
  | localVariable none declare => do let _ ← Template.localVariable .none declare

/-- The calls, one after another. An exception ends the build. -/
def runCalls : List Call → Op Unit
  | [] => return
  | c :: cs => do
      c.body
      runCalls cs

/-- A state between two calls. -/
def Reached (s : Locals) : Prop := ∃ cs, runCalls cs .extend = .ok () s

end Mlogv32.Template
