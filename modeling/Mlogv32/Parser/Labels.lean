import Mlogv32.Parser.Lexer
import Mlogv32.Python.Int

/-!
# Labels

`iter_labels`, `count_statements` and `replace_symbolic_labels`.
-/

namespace Mlogv32.Parser
open Python

/-! ## iter_labels -/

inductive DirectiveError where
  | notInt (n : Token)
  | invalid (description : String) (result : Int) (n : Token)
  | nested (name : Token)
  | noStart (name : Token)
  | length (name : Token) (want : Int) (start counter : Nat)
  | counter (name n : Token) (counter : Nat)
  | noEnd (n : Token)
  deriving DecidableEq, Repr

/-- The messages. That of `notInt` is the message of the ValueError. -/
def DirectiveError.message : DirectiveError → Option String
  | notInt _ => none
  | invalid description result _ => some s!"Invalid {description}: {result}"
  | nested _ => some "Nested length assertions are not supported"
  | noStart _ => some "Found end_assert_length without matching start_assert_length"
  | length _ want start count =>
    some s!"Expected @counter to be {start + want} (length {want}), but got {count} (length {count - start})"
  | counter _ n count => some s!"Expected @counter to be {n.value}, but got {count}"
  | noEnd _ => some "Found start_assert_length without matching end_assert_length"

/-- The token that an error points at. -/
def DirectiveError.token : DirectiveError → Token
  | notInt n | invalid _ _ n | noEnd n => n
  | nested name | noStart name | length name _ _ _ | counter name _ _ => name

def expectInt (u : Unicode) (n : Token) (predicate : Int → Bool) (description : String) :
    Except DirectiveError Int :=
  match int10 u n.value.toList with
  | some result => if predicate result then .ok result else .error (.invalid description result n)
  | none => .error (.notInt n)

structure LabelState where
  counter : Nat
  /-- The length, the counter at its start and the token for errors. -/
  lengthAssertion : Option (Int × Nat × Token)
  yields : List (String × Nat)
  deriving DecidableEq, Repr

/-- The loop body of `iter_labels`. -/
def LabelState.node (u : Unicode) (s : LabelState) : ASTNode → Except DirectiveError LabelState
  | .label name => .ok { s with yields := s.yields ++ [(name.value, s.counter)] }
  | .statement _ => .ok { s with counter := s.counter + 1 }
  | .directive name args =>
    match name.value, args with
    | "start_assert_length", [n] =>
      match s.lengthAssertion with
      | some _ => .error (.nested name)
      | none => do
        let length ← expectInt u n (fun v => 0 ≤ v) "length assertion"
        return { s with lengthAssertion := some (length, s.counter, n) }
    | "end_assert_length", _ =>
      match s.lengthAssertion with
      | none => .error (.noStart name)
      | some (want, start, _) =>
        if want ≠ (s.counter : Int) - start then .error (.length name want start s.counter)
        else .ok { s with lengthAssertion := none }
    | "assert_counter", [n] => do
      let want ← expectInt u n (fun _ => true) "value"
      if (s.counter : Int) ≠ want then .error (.counter name n s.counter) else .ok s
    | _, _ => .ok s

/-- What `iter_labels` yields, unless it raises an error. -/
def iterLabels (u : Unicode) (ast : AST) : Except DirectiveError (List (String × Nat)) := do
  let s ← ast.foldlM (LabelState.node u) ⟨0, none, []⟩
  match s.lengthAssertion with
  | some (_, _, token) => .error (.noEnd token)
  | none => .ok s.yields

def countStatements : AST → Nat
  | [] => 0
  | .statement _ :: ast => countStatements ast + 1
  | .label _ :: ast | .directive _ _ :: ast => countStatements ast

/-! ## replace_symbolic_labels -/

/-- `dict[str, int]`, where later entries replace earlier ones. -/
def dict (entries : List (String × Nat)) (key : String) : Option Nat := entries.reverse.lookup key

/-- Equality of dictionaries. -/
def dictEq (d d' : List (String × Nat)) : Bool :=
  d.all (fun e => dict d' e.1 = dict d e.1) && d'.all (fun e => dict d e.1 = dict d' e.1)

/-- `text[start:stop]`. -/
def slice (text : List Char) (start stop : Nat) : List Char := (text.drop start).take (stop - start)

inductive ReplaceError where
  | unknownLabel (label : String) (token : Token)
  | invalidToken (token : Token)
  /-- The new text is not accepted by `parse_mlog`. -/
  | syntaxError
  | statementCount
  | labels
  | directive (e : DirectiveError)
  deriving DecidableEq, Repr

def ReplaceError.message : ReplaceError → Option String
  | unknownLabel label _ => some s!"Unknown symbolic label: {label}"
  | invalidToken token => some s!"Internal error: invalid token: {token.value}"
  | syntaxError => none
  | statementCount => some "Source transformation failed: mismatched statement count"
  | labels => some "Source transformation failed: mismatched labels"
  | directive e => e.message

def iterLabelRefs : AST → List Token
  | [] => []
  | .statement st :: ast => st.args.filter (·.type = .LABEL_REF) ++ iterLabelRefs ast
  | .label _ :: ast | .directive _ _ :: ast => iterLabelRefs ast

/-- The loop over the references and the text after the last one, from `start_pos` on. -/
def replaceFrom (text : List Char) (labels : List (String × Nat)) :
    Nat → List Token → Except ReplaceError (List Char)
  | startPos, [] => .ok (text.drop startPos)
  | startPos, token :: tokens =>
    match dict labels (inner token.value), token.startPos, token.endPos with
    | none, _, _ => .error (.unknownLabel (inner token.value) token)
    | some n, some start, some stop => do
      let parts ← replaceFrom text labels stop tokens
      return slice text startPos start ++ (toString n).toList ++ parts
    | some _, _, _ => .error (.invalidToken token)

/-- The sanity checks. -/
def checkReplaced (u : Unicode) (newText : String) (ast : AST) (labels : List (String × Nat)) :
    Except ReplaceError Unit :=
  match parseMlog newText with
  | none => .error .syntaxError
  | some newAst =>
    if countStatements ast ≠ countStatements newAst then .error .statementCount
    else match iterLabels u newAst with
      | .error e => .error (.directive e)
      | .ok newLabels => if dictEq labels newLabels then .ok () else .error .labels

def replaceSymbolicLabels (u : Unicode) (text : String) (ast : AST) (labels : List (String × Nat))
    (check : Bool) : Except ReplaceError String := do
  let newText ← replaceFrom text.toList labels 0 (iterLabelRefs ast)
  if check then
    checkReplaced u (String.ofList newText) ast labels
  return String.ofList newText

end Mlogv32.Parser
