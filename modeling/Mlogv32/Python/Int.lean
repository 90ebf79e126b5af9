import Mathlib.Data.Nat.Digits.Defs

/-!
# Integers of Python

`int(s, base=0)` as the interpreter computes it, beside the integer literals of the language. `int`
reads every literal of at most 4300 decimal digits. It also reads white space around a literal and
the digits of other scripts.
-/

namespace Mlogv32.Python

/-! ## Literals -/

def digitValue (c : Char) : Option Nat :=
  if 48 ≤ c.toNat ∧ c.toNat ≤ 57 then some (c.toNat - 48)
  else if 97 ≤ c.toNat ∧ c.toNat ≤ 122 then some (c.toNat - 87)
  else if 65 ≤ c.toNat ∧ c.toNat ≤ 90 then some (c.toNat - 55)
  else none

/-- The characters are `digit (["_"] digit)*`. -/
inductive Digits (base : Nat) : List Char → List Nat → Prop where
  | last {c d} : digitValue c = some d → d < base → Digits base [c] [d]
  | digit {c d cs ds} : digitValue c = some d → d < base → Digits base cs ds →
      Digits base (c :: cs) (d :: ds)
  | underscore {c d cs ds} : digitValue c = some d → d < base → Digits base cs ds →
      Digits base (c :: '_' :: cs) (d :: ds)

/-- The base after `0`. -/
def literalBase (c : Char) : Option Nat :=
  if c = 'x' ∨ c = 'X' then some 16
  else if c = 'o' ∨ c = 'O' then some 8
  else if c = 'b' ∨ c = 'B' then some 2
  else none

/-- `integer` of the grammar, with its base and its digits. Decimal literals start with a zero only
if all digits are zero. -/
inductive Literal : Nat → List Nat → List Char → Prop where
  | decimal {c cs ds} : c ≠ '0' → Digits 10 (c :: cs) ds → Literal 10 ds (c :: cs)
  | zero {cs ds} : (∀ d ∈ ds, d = 0) → Digits 10 cs ds → Literal 10 ds cs
  | based {p base cs ds} : literalBase p = some base → Digits base cs ds →
      Literal base ds ('0' :: p :: cs)
  | underscore {p base cs ds} : literalBase p = some base → Digits base cs ds →
      Literal base ds ('0' :: p :: '_' :: cs)

def value (base : Nat) (ds : List Nat) : Nat := Nat.ofDigits base ds.reverse

/-- A literal with at most one sign. -/
inductive SignedLiteral (base : Nat) (ds : List Nat) : List Char → Int → Prop where
  | unsigned {cs} : Literal base ds cs → SignedLiteral base ds cs (value base ds)
  | plus {cs} : Literal base ds cs → SignedLiteral base ds ('+' :: cs) (value base ds)
  | minus {cs} : Literal base ds cs → SignedLiteral base ds ('-' :: cs) (-(value base ds : Int))

/-! ## int -/

/-- `sys.int_info.default_max_str_digits`. -/
def maxStrDigits : Nat := 4300

/-- The limit is for bases that are not powers of two. -/
def WithinLimit (base : Nat) (ds : List Nat) : Prop := base = 10 → ds.length ≤ maxStrDigits

instance (base : Nat) (ds : List Nat) : Decidable (WithinLimit base ds) := by
  unfold WithinLimit; infer_instance

/-- `Py_ISSPACE`. -/
def isSpace (c : Char) : Bool := c = ' ' || (9 ≤ c.toNat && c.toNat ≤ 13)

/-- The properties of the characters outside ASCII. They depend on the version of Unicode. -/
structure Unicode where
  isspace : Char → Bool
  decimal : Char → Option (Fin 10)

/-- `_PyUnicode_TransformDecimalAndSpaceToASCII`, for one character. -/
def Unicode.toAscii (u : Unicode) (c : Char) : Char :=
  if c.toNat < 128 then c
  else if u.isspace c then ' '
  else match u.decimal c with
    | some d => Char.ofNat (48 + d.val)
    | none => '?'

/-- The loop of `long_from_string_base`, with what follows the digits. `prev` says that the last
character was a digit. -/
def scanDigits (base : Nat) : Bool → List Char → Option (List Nat × List Char)
  | prev, [] => if prev then some ([], []) else none
  | prev, c :: s =>
    if c = '_' then if prev then scanDigits base false s else none
    else match digitValue c with
      | some d =>
        if d < base then (scanDigits base true s).map fun r => (d :: r.1, r.2)
        else if prev then some ([], c :: s) else none
      | none => if prev then some ([], c :: s) else none

def scanSign : List Char → Bool × List Char
  | '+' :: s => (false, s)
  | '-' :: s => (true, s)
  | s => (false, s)

def skipUnderscore : List Char → List Char
  | '_' :: s => s
  | s => s

/-- The base, whether the digits must be zero, and the text of the digits. -/
def scanBase (s : List Char) : Nat × Bool × List Char :=
  match s with
  | '0' :: p :: t =>
    match literalBase p with
    | some base => (base, false, skipUnderscore t)
    | none => (10, true, s)
  | '0' :: [] => (10, true, s)
  | _ => (10, false, s)

/-- `PyLong_FromString`, with the base 0, on the whole text. -/
def fromString (s : List Char) : Option Int :=
  let (negative, s) := scanSign (s.dropWhile isSpace)
  let (base, errorIfNonzero, s) := scanBase s
  match scanDigits base false s with
  | some (ds, rest) =>
    if rest.all isSpace && decide (WithinLimit base ds) && !(errorIfNonzero && ds.any (· != 0)) then
      some (if negative then -(value base ds : Int) else value base ds)
    else none
  | none => none

/-- `int(s, base=0)`, where none is a ValueError. -/
def int (u : Unicode) (s : List Char) : Option Int := fromString (s.map u.toAscii)

/-- `int(s)`, where none is a ValueError. The base is ten, and the digits may begin with zeros. -/
def int10 (u : Unicode) (s : List Char) : Option Int :=
  let (negative, s) := scanSign ((s.map u.toAscii).dropWhile isSpace)
  match scanDigits 10 false s with
  | some (ds, rest) =>
    if rest.all isSpace && decide (WithinLimit 10 ds) then
      some (if negative then -(value 10 ds : Int) else value 10 ds)
    else none
  | none => none

end Mlogv32.Python
