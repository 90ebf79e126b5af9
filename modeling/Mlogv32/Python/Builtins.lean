import Mathlib.Logic.Basic

/-!
# Built-in types of Python

The exceptions that the build raises, and methods of `str`.
-/

namespace Mlogv32.Python

inductive Exception where
  | valueError (message : String)
  | assertionError (message : String)
  | overflowError (message : String)
  | indexError (message : String)
  deriving DecidableEq, Repr

def startswith (s pre : String) : Bool := pre.toList.isPrefixOf s.toList

def removeprefix (s pre : String) : String :=
  if startswith s pre then String.ofList (s.toList.drop pre.toList.length) else s

end Mlogv32.Python
