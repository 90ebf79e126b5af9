import Mlogv32.Parser.Ast

/-!
# Saved variables

`check_unsaved_variables` looks for variables that the code after `end_fetch` assigns and the fetch
block does not restore.
-/

namespace Mlogv32.Parser

/-! ## The check -/

inductive Warning where
  | invalidRestoration (var name : String)
  | duplicateRestoration (var : String)
  | unsavedVariable (var : String)
  deriving DecidableEq, Repr

inductive Phase where
  | init
  | fetch
  | check
  deriving DecidableEq, Repr

structure CheckState where
  savedVariables : List String
  warnedVariables : List String
  state : Phase
  warnings : List Warning
  deriving DecidableEq, Repr

namespace CheckState

def start :
    CheckState :=
      { savedVariables := ["@counter"], warnedVariables := [], state := .init, warnings := [] }

def warn (s : CheckState) (w : Warning) : CheckState := { s with warnings := s.warnings ++ [w] }

/-- `saved_variables.add`. -/
def save (s : CheckState) (var : String) : CheckState :=
  if var ∈ s.savedVariables then s else { s with savedVariables := var :: s.savedVariables }

/-- `saved_variables.remove`, which raises a `KeyError` if the variable is not there. -/
def unsave (s : CheckState) (var : String) : Option CheckState :=
  if var ∈ s.savedVariables then some { s with savedVariables := s.savedVariables.erase var } else none

/-- A statement of the fetch block that reads from `prev_proc`. -/
def restore (s : CheckState) (var name : String) : CheckState :=
  (if var ≠ inner name then s.warn (.invalidRestoration var (inner name))
    else if var ∈ s.savedVariables then s.warn (.duplicateRestoration var)
    else s).save var

/-- The end of the loop body, for the variable that a statement assigns. -/
def assign (s : CheckState) (var : String) : CheckState :=
  if s.state = .check ∧ var ∉ s.savedVariables ++ s.warnedVariables then
    { s.warn (.unsavedVariable var) with warnedVariables := var :: s.warnedVariables }
  else s

def statement (s : CheckState) (name : String) (args : List String) : CheckState :=
  match name, args with
  | "read", [var, target, name] =>
      if s.state = .fetch ∧ target = "prev_proc" then s.restore var name else s.assign var
  | "getblock", _ :: var :: _ => s.assign var
  | "getflag", var :: _ => s.assign var
  | "getlink", var :: _ => s.assign var
  | "lookup", _ :: var :: _ => s.assign var
  | "op", _ :: var :: _ => s.assign var
  | "sensor", var :: _ => s.assign var
  | "set", var :: _ => s.assign var
  | "select", var :: _ => s.assign var
  | _, _ => s

def directive (s : CheckState) (name : String) (args : List String) : Option CheckState :=
  match name with
  | "start_fetch" => some { s with state := .fetch }
  | "end_fetch" => some { s with state := .check }
  | "push_saved" => some (args.foldl save s)
  | "pop_saved" => args.foldlM unsave s
  | _ => some s

def node (s : CheckState) : ASTNode → Option CheckState
  | .statement st => some (s.statement st.name.value (st.args.map Token.value))
  | .directive name args => s.directive name.value (args.map Token.value)
  | .label _ => some s

end CheckState

/-- The warnings and the number of saved variables that `check_unsaved_variables` prints, unless it
raises an error. -/
def checkUnsavedVariables (ast : AST) : Option (List Warning × Nat) :=
  (ast.foldlM CheckState.node .start).map fun s =>
    (s.warnings, (s.savedVariables.erase "@counter").length)

end Mlogv32.Parser
