import Mathlib

/-!
# The syntax tree of an mlog text

The tokens and the nodes that `parse_mlog` makes.
-/

namespace Mlogv32.Parser

/-- The terminals of the grammar whose tokens are kept. The name of a directive has a terminal of
its own. -/
inductive TokenType where
  | TOKEN
  | LABEL
  | LABEL_REF
  | STRING
  | directiveName
  deriving DecidableEq, Repr

structure Token where
  type : TokenType
  value : String
  startPos : Option Nat
  endPos : Option Nat
  deriving DecidableEq, Repr

structure Statement where
  name : Token
  args : List Token
  deriving DecidableEq, Repr

inductive ASTNode where
  | label (name : Token)
  | statement (s : Statement)
  | directive (name : Token) (args : List Token)
  deriving DecidableEq, Repr

abbrev AST := List ASTNode

/-- `s[1:-1]`. -/
def inner (s : String) : String := String.ofList s.toList.tail.dropLast

/-- The statements of a program, which the game numbers from 0. -/
def statements : AST → List Statement
  | [] => []
  | .statement s :: ast => s :: statements ast
  | .label _ :: ast | .directive _ _ :: ast => statements ast

@[simp] theorem statements_append (ast ast' : AST) :
    statements (ast ++ ast') = statements ast ++ statements ast' := by
  induction ast with
  | nil => rfl
  | cons node ast ih => cases node <;> simp [statements, ih]

end Mlogv32.Parser
