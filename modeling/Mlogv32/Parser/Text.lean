import Mlogv32.Parser.Lexer

/-!
# The statements of an mlog text

How the game splits a text: a line break or a `;` outside string literals ends a statement, a string
literal runs from a double quote to the next one on the line, and a `#` outside string literals
starts a comment.
-/

namespace Mlogv32.Parser

/-! ## Reading -/

/-- Whether a double quote before this text has a partner on its line. -/
def closes (s : List Char) : Bool := '"' ∈ s.takeWhile (· ≠ '\n')

/-- A statement or a label, up to the character that ends it, and the text from there on. -/
structure Piece where
  start : Nat
  text : List Char
  rest : List Char
  deriving DecidableEq, Repr

/-- A comment is kept where no statement stands before it. -/
inductive Item where
  | piece (p : Piece)
  | comment (text : List Char)
  deriving DecidableEq, Repr

inductive Reading where
  | code
  | string
  | comment
  deriving DecidableEq, Repr

/-- The text of a piece that has begun, backwards, and where it begins. -/
abbrev Current := Option (Nat × List Char)

def Current.push (cur : Current) (pos : Nat) (c : Char) : Current :=
  match cur with
  | some (start, cs) => some (start, c :: cs)
  | none => if isBlank c then none else some (pos, [c])

def Current.flush (cur : Current) (rest : List Char) : List Item :=
  match cur with
  | some (start, cs) => [.piece ⟨start, cs.reverse, rest⟩]
  | none => []

def Current.comment (cur : Current) (s : List Char) : List Item :=
  match cur with
  | some _ => []
  | none => [.comment (s.takeWhile (· ≠ '\n'))]

def items : Reading → Current → Nat → List Char → List Item
  | _, cur, _, [] => cur.flush []
  | .comment, _, pos, c :: s =>
    if c = '\n' then items .code none (pos + 1) s else items .comment none (pos + 1) s
  | .string, cur, pos, c :: s => items (if c = '"' then .code else .string) (cur.push pos c) (pos + 1) s
  | .code, cur, pos, c :: s =>
    if isSeparator c then cur.flush (c :: s) ++ items .code none (pos + 1) s
    else if c = '#' then cur.flush (c :: s) ++ cur.comment (c :: s) ++ items .comment none (pos + 1) s
    else items (if c = '"' ∧ closes s then .string else .code) (cur.push pos c) (pos + 1) s

/-! ## Statements and labels -/

/-- Without the blanks at the end. -/
def trimEnd (s : List Char) : List Char := s.rdropWhile isBlank

/-- The only token of a piece is a label if it ends with a colon. -/
def Piece.isLabel (p : Piece) : Bool :=
  (trimEnd p.text).getLast? = some ':' && !(trimEnd p.text).any isBlank

def Item.piece? : Item → Option Piece
  | piece p => some p
  | comment _ => none

def Item.comment? : Item → Option (List Char)
  | piece _ => none
  | comment text => some text

def pieces (text : List Char) : List Piece := (items .code none 0 text).filterMap Item.piece?

def comments (text : List Char) : List (List Char) := (items .code none 0 text).filterMap Item.comment?

/-- The labels, each with the number of the statements before it. -/
def pieceLabels : Nat → List Piece → List (List Char × Nat)
  | _, [] => []
  | n, p :: ps =>
    if p.isLabel then ((trimEnd p.text).dropLast, n) :: pieceLabels n ps else pieceLabels (n + 1) ps

/-- Where a statement or a label stands in a text. -/
structure Extent where
  isLabel : Bool
  start : Option Nat
  stop : Option Nat
  deriving DecidableEq, Repr

def Piece.extent (p : Piece) : Extent :=
  { isLabel := p.isLabel, start := some p.start, stop := some (p.start + (trimEnd p.text).length) }

/-- From the first token of a node to its last one. -/
def ASTNode.extent? : ASTNode → Option Extent
  | label name => some { isLabel := true, start := name.startPos, stop := name.endPos }
  | statement st =>
    some { isLabel := false, start := st.name.startPos, stop := (st.args.getLast?.getD st.name).endPos }
  | directive _ _ => none

/-! ## Where the grammar reads the same -/

/-- The text up to `q` is read as arguments and blanks without a string. -/
inductive PlainArgs : List Char → List Char → Prop where
  | done {q} : PlainArgs q q
  | step {s rest q l} : Context.statement.read s = some (l, rest) →
      l.terminal ∈ [Terminal.LABEL_REF, .LABEL, .TOKEN, .WS] → PlainArgs rest q → PlainArgs s q

/-- A double quote that begins an argument and has a partner on its line. -/
def StringAt (q : List Char) : Prop := q.head? = some '"' ∧ closes q.tail = true

/-- The piece is not a lone colon. Nothing that ends a statement stands before its first string
argument, and after a piece with a string argument the line has no double quote. -/
def Piece.Plain (p : Piece) : Prop :=
  trimEnd p.text ≠ [':'] ∧ ∃ q, PlainArgs ((p.text ++ p.rest).dropWhile isTokenChar) q ∧
    (q = p.rest ∨ StringAt q ∧ closes p.rest = false)

/-- On a line that begins with a directive, no statement or label follows a `;`. The flag says that
the reader is in a directive. -/
def quiet : Bool → List Char → Bool
  | _, [] => true
  | true, c :: s => if c = '\n' || c = '#' then true else quiet (c ≠ ';') s
  | false, c :: s =>
    if c = '\n' then true
    else if c = '#' then !(directivePrefix.isPrefixOf (c :: s)) || quiet true s
    else if isBlank c || c = ';' then quiet false s
    else false

structure Clear (text : List Char) : Prop where
  pieces : ∀ p ∈ Parser.pieces text, p.Plain
  comments : ∀ c ∈ Parser.comments text, quiet false c = true

end Mlogv32.Parser
