import Mlogv32.Parser.Ast

/-!
# Runs of an mlog program

The game is a parameter. A statement reads its arguments and `@counter`, and assigns at most one of
its arguments and `@counter`.
-/

namespace Mlogv32.Parser

/-! ## Variables of a statement -/

/-- The argument that a kind of statement assigns. -/
def resultIndex : String → Option Nat
  | "read" | "getflag" | "getlink" | "sensor" | "set" | "select" => some 0
  | "getblock" | "lookup" | "op" => some 1
  | _ => none

namespace Statement

/-- The variable that the statement assigns. -/
def result (s : Statement) : Option String :=
  (resultIndex s.name.value).bind fun i => s.args[i]?.map Token.value

/-- The variables that the statement reads. -/
def reads (s : Statement) : List String :=
  match resultIndex s.name.value with
  | some i => (s.args.eraseIdx i).map Token.value
  | none => s.args.map Token.value

/-- The variable that the statement restores from the last worker. -/
def restores (s : Statement) : Option String :=
  match s.name.value, s.args.map Token.value with
  | "read", [var, target, name] =>
      if target = "prev_proc" ∧ name = "\"" ++ var ++ "\"" then some var else none
  | _, _ => none

/-- The statement has the arguments of its kind. -/
def hasArgs (s : Statement) : Bool :=
  match s.name.value with
  | "read" => s.args.length = 3
  | "getflag" | "getlink" | "sensor" | "set" | "select" => 1 ≤ s.args.length
  | "getblock" | "lookup" | "op" => 2 ≤ s.args.length
  | _ => true

end Statement

/-! ## The game -/

variable {Val Env : Type}

abbrev Store (Val : Type) := String → Val

/-- What a statement does: the value for its result, if it assigns one, the next `@counter` and the
rest of the world. -/
structure Effect (Val Env : Type) where
  result : Option Val
  counter : Val
  env : Env

structure Game (Val Env : Type) where
  /-- The number of the statement that `@counter` stands for. -/
  index : Val → Nat
  exec : Statement → Store Val → Env → Effect Val Env
  exec_congr : ∀ s σ σ' e, σ "@counter" = σ' "@counter" → (∀ x ∈ s.reads, σ x = σ' x) →
    exec s σ e = exec s σ' e

structure Machine (Val Env : Type) where
  store : Store Val
  env : Env

/-- The result is assigned after `@counter`, so that it can be the target of a jump. -/
def Effect.apply (e : Effect Val Env) (s : Statement) (σ : Store Val) : Machine Val Env :=
  let σ := Function.update σ "@counter" e.counter
  match s.result, e.result with
  | some x, some v => { store := Function.update σ x v, env := e.env }
  | _, _ => { store := σ, env := e.env }

namespace Game

variable (g : Game Val Env) (program : List Statement)

/-- The next statement. Behind the last one the program starts again. -/
def next (m : Machine Val Env) : Option Statement :=
  (program[g.index (m.store "@counter")]?).or program[0]?

def step (m : Machine Val Env) : Machine Val Env :=
  match g.next program m with
  | some s => (g.exec s m.store m.env).apply s m.store
  | none => m

/-- The machine after `n` statements. -/
def run (n : Nat) (m : Machine Val Env) : Machine Val Env := (g.step program)^[n] m

/-- The next statement assigns the variable. -/
def Assigns (m : Machine Val Env) (x : String) : Prop :=
  ∃ s, g.next program m = some s ∧ s.result = some x ∧ (g.exec s m.store m.env).result.isSome

end Game

end Mlogv32.Parser
