import Mlogv32.Parser.Ast

/-!
# Parsing an mlog text

`parse_mlog`: the terminals of `mlog.lark`, the contextual lexer of the LALR parser, and the
transformer.
-/

namespace Mlogv32.Parser

/-! ## Characters -/

/-- `[^\n #\t;]`. -/
def isTokenChar (c : Char) : Bool := c ≠ '\n' && c ≠ ' ' && c ≠ '#' && c ≠ '\t' && c ≠ ';'

def isBlank (c : Char) : Bool := c = ' ' || c = '\t'

/-- The characters of `_NEWLINE`. -/
def isSeparator (c : Char) : Bool := c = '\n' || c = ';'

/-- The text before the last occurrence of a character, and the text after it. -/
def splitLast (c : Char) : List Char → Option (List Char × List Char)
  | [] => none
  | x :: s =>
    match splitLast c s with
    | some (a, b) => some (x :: a, b)
    | none => if x = c then some ([], s) else none

/-! ## Terminals -/

inductive Terminal where
  | STRING
  | LABEL
  | LABEL_REF
  | TOKEN
  | DIRECTIVE
  | directiveName
  | COMMENT
  | NEWLINE
  | WS
  deriving DecidableEq, Repr

def directivePrefix : List Char := ['#', 'd', 'i', 'r', 'e', 'c', 't', 'i', 'v', 'e']

def directiveNames : List (List Char) :=
  ["assert_counter", "start_fetch", "start_assert_length", "end_fetch",
    "end_assert_length", "push_saved", "pop_saved"].map String.toList

/-- A nonempty run of characters, and the text after it. -/
def spanRun (p : Char → Bool) (s : List Char) : Option (List Char × List Char) :=
  if s.takeWhile p = [] then none else some (s.takeWhile p, s.dropWhile p)

/-- The longest part of `run`, the beginning of a text, that ends with `c` after at least `least`
characters. -/
def spanUntil (c : Char) (least : Nat) (run rest : List Char) : Option (List Char × List Char) :=
  match splitLast c run with
  | some (a, b) => if least ≤ a.length then some (a ++ [c], b ++ rest) else none
  | none => none

/-- The longest match of a terminal at the beginning of a text, and the text after it. -/
def Terminal.longest (t : Terminal) (s : List Char) : Option (List Char × List Char) :=
  match t with
  | STRING =>
    if s.head? = some '"' then spanUntil '"' 1 (s.takeWhile (· ≠ '\n')) (s.dropWhile (· ≠ '\n'))
      else none
  | LABEL => spanUntil ':' 1 (s.takeWhile isTokenChar) (s.dropWhile isTokenChar)
  | LABEL_REF =>
    if s.head? = some '%' then spanUntil '%' 2 (s.takeWhile isTokenChar) (s.dropWhile isTokenChar)
      else none
  | TOKEN => spanRun isTokenChar s
  | DIRECTIVE =>
      if directivePrefix <+: s then some (directivePrefix, s.drop directivePrefix.length) else none
  | directiveName => (directiveNames.find? (· <+: s)).map fun name => (name, s.drop name.length)
  | COMMENT => if s.head? = some '#' then spanRun (· ≠ '\n') s else none
  | NEWLINE => spanRun isSeparator s
  | WS => spanRun isBlank s

/-! ## The contextual lexer -/

/-- What the parser has read of a line. -/
inductive Context where
  | line
  | label
  | statement
  | directive
  | directiveArgs
  deriving DecidableEq, Repr

/-- The terminals that the lexer looks for, in the order of their priorities. -/
def Context.terminals : Context → List Terminal
  | line => [.LABEL, .DIRECTIVE, .TOKEN, .COMMENT, .NEWLINE, .WS]
  | label => [.COMMENT, .NEWLINE, .WS]
  | statement => [.STRING, .LABEL_REF, .LABEL, .TOKEN, .COMMENT, .NEWLINE, .WS]
  | directive => [.directiveName, .COMMENT, .WS]
  | directiveArgs => [.TOKEN, .COMMENT, .NEWLINE, .WS]

def Context.next : Context → Terminal → Context
  | ctx, .COMMENT | ctx, .WS => ctx
  | _, .NEWLINE => line
  | line, .LABEL => label
  | line, .TOKEN => statement
  | line, .DIRECTIVE => directive
  | directive, .directiveName => directiveArgs
  | ctx, _ => ctx

/-- A match of a terminal, with the context that the lexer was in. -/
structure Lexeme where
  ctx : Context
  terminal : Terminal
  text : List Char
  deriving DecidableEq, Repr

/-- The next lexeme, and the text after it. -/
def Context.read (ctx : Context) (s : List Char) : Option (Lexeme × List Char) :=
  ctx.terminals.findSome? fun t => (t.longest s).map fun m => (⟨ctx, t, m.1⟩, m.2)

/-- The lexemes of a text, where every line that is not empty ends with `_NEWLINE`. -/
def lex : Nat → Context → List Char → Option (List Lexeme)
  | _, ctx, [] => if ctx = .line then some [] else none
  | 0, _, _ :: _ => none
  | fuel + 1, ctx, c :: s =>
    match ctx.read (c :: s) with
    | some (l, rest) => (lex fuel (ctx.next l.terminal) rest).map (l :: ·)
    | none => none

/-! ## The transformer -/

def Terminal.tokenType : Terminal → TokenType
  | STRING => .STRING
  | LABEL => .LABEL
  | LABEL_REF => .LABEL_REF
  | directiveName => .directiveName
  | _ => .TOKEN

def Lexeme.token (l : Lexeme) (pos : Nat) : Token :=
  { type := l.terminal.tokenType, value := String.ofList l.text, startPos := some pos,
    endPos := some (pos + l.text.length) }

/-- `name.update(value=name[:-1])`. -/
def labelToken (name : Token) : Token := { name with value := String.ofList name.value.toList.dropLast }

/-- The tokens up to the end of the line, and the nodes after them. -/
def build : Nat → List Lexeme → List Token × AST
  | _, [] => ([], [])
  | pos, l :: ls =>
    let r := build (pos + l.text.length) ls
    match l.ctx, l.terminal with
    | _, .WS | _, .COMMENT => r
    | _, .NEWLINE => ([], r.2)
    | .line, .LABEL => ([], .label (labelToken (l.token pos)) :: r.2)
    | .line, .TOKEN => ([], .statement ⟨l.token pos, r.1⟩ :: r.2)
    | .line, .DIRECTIVE =>
      match r.1 with
      | name :: args => ([], .directive name args :: r.2)
      | [] => ([], r.2)
    | _, _ => (l.token pos :: r.1, r.2)

/-- `parse_mlog`, where none is an exception of the parser. -/
def parseMlog (text : String) : Option AST :=
  (lex text.toList.length .line text.toList).map fun ls => (build 0 ls).2

end Mlogv32.Parser
