import Mlogv32.Cpu.Hart

/-!
# The scrolling display

`scrolling_display.mlog.jinja`. The text is kept in a ring of variables of a RAM processor, which
the processors INCR and DECR link in both directions. Each tick takes the bytes of the UART into the
ring, and goes on with the text from the bottom line up, as far as the draw buffer allows.
-/

namespace Mlogv32.Display
open Mlog Cpu

/-! ## Constants -/

def lfChar : Int := 10
def spaceChar : Int := 32
def termWidthChars : Int := 70
def termHeightChars : Int := 38
def charWidth : Int := 7
def charHeight : Int := 13
def baseX : Int := 5
def baseY : Int := 6
def maxX : Int := baseX + (termWidthChars - 1) * charWidth
def maxY : Int := baseY + (termHeightChars - 1) * charHeight
def bufferMaxSize : Int := termWidthChars * termHeightChars

/-! ## State -/

/-- The draw instructions, in the order in which the display executes them. -/
inductive Draw where
  | reset
  | color (r g b a : Int)
  | clear (r g b : Int)
  /-- `printchar char` and `draw print x y @bottomLeft`. -/
  | print (x y : Int) (char : Value)
  deriving DecidableEq, Repr

/-- Where the program waits: for the power switch of the display, for the next tick, or for the CPU. -/
inductive Point where
  | resetLoop
  | main
  | waitForCpu
  deriving DecidableEq, Repr

/-- The variables of a RAM-like processor. -/
abbrev Proc := Nat → Value

/-- `read v proc position`, where `old` is the value of `v`. -/
def readVar (proc : Proc) (position old : Value) : Value :=
  match position with
  | .var i => proc i
  | _ => old

/-- `write x proc position`. -/
def writeVar (proc : Proc) (position x : Value) : Proc :=
  match position with
  | .var i => fun j => if j = i then x else proc j
  | _ => proc

structure Scrolling where
  point : Point
  buffer : Proc
  incr : Proc
  decr : Proc
  rxRead : Int
  bufferWrite : Value
  bufferWriteCol : Int
  bufferY : Int
  bufferRead : Value
  printX : Int
  printY : Int
  draws : List Draw

/-- What a tick finds: the power switches, the number of commands that the display has queued, and
the cells of the UART bank, whose pointers are below the capacity `c` of the FIFO plus one. The
cells between the pointers keep their bytes until they are read. -/
structure Tick (c : Nat) where
  displayPower : Bool
  cpuPower : Bool
  bufferSize : Int
  uart : Int → Int
  rxRead_range : 0 ≤ uart 510 ∧ uart 510 ≤ c
  rxWrite_range : 0 ≤ uart 511 ∧ uart 511 ≤ c

namespace Scrolling

def draw (s : Scrolling) (d : Draw) : Scrolling := { s with draws := s.draws ++ [d] }

/-! ## Initialisation -/

/-- `incr_decr_loop`. The fuel of each loop bounds the number of its rounds. -/
def incrDecrLoop : Nat → Value → Value → Int → Proc → Proc → Option (Proc × Proc)
  | 0, _, _, _, _, _ => none
  | fuel + 1, prev, cur, i, incr, decr =>
    let next := lookupVariable i
    let decr := writeVar decr cur prev
    let incr := writeVar incr cur next
    if next ≠ .var 0 then incrDecrLoop fuel cur next (opMod (i + 1) bufferMaxSize) incr decr
      else some (incr, decr)

/-- From `setrate` to `main`. -/
def init {c : Nat} (fuel : Nat) (t : Tick c) (s : Scrolling) : Option Scrolling :=
  match incrDecrLoop fuel (.var 2659) (.var 0) 1 s.incr s.decr with
  | none => none
  | some (incr, decr) => some
    { s with
      point := .main
      incr := incr
      decr := decr
      rxRead := t.uart 510
      bufferWrite := .var 0
      bufferWriteCol := 0
      bufferY := baseY
      bufferRead := .var 0
      printX := baseX
      printY := maxY
      draws := s.draws ++ [.reset, .color 255 255 255 255, .clear 0 0 0] }

/-! ## uart_loop -/

/-- A character goes to the buffer. -/
def writeChar (s : Scrolling) (char : Value) : Scrolling :=
  { s with
    buffer := writeVar s.buffer s.bufferWrite char
    bufferWrite := readVar s.incr s.bufferWrite s.bufferWrite
    bufferWriteCol := s.bufferWriteCol + 1 }

/-- `uart_loop__pad_lf`. -/
def padLf (char : Value) : Nat → Scrolling → Option Scrolling
  | 0, _ => none
  | fuel + 1, s =>
    let s := s.writeChar char
    if s.bufferWriteCol < termWidthChars then padLf char fuel s else some s

/-- A character, and the rest of its line if it ends one. -/
def fillLine (fuel : Nat) (char : Value) (s : Scrolling) : Option Scrolling :=
  let s := s.writeChar char
  if char ≠ .num lfChar ∨ termWidthChars ≤ s.bufferWriteCol then some s else padLf char fuel s

/-- `uart_loop__not_lf`. The flag is `should_scroll`. -/
def endLine (shouldScroll : Bool) (s : Scrolling) : Bool × Scrolling :=
  if s.bufferWriteCol < termWidthChars then (shouldScroll, s)
  else (true, { s with bufferY := min (s.bufferY + charHeight) maxY, bufferWriteCol := 0 })

def uartLoop {c : Nat} (t : Tick c) : Nat → Bool → Scrolling → Option (Bool × Scrolling)
  | 0, _, _ => none
  | fuel + 1, shouldScroll, s =>
    let char := Value.num (t.uart (s.rxRead + 256))
    let s := { s with rxRead := opMod (s.rxRead + 1) (c + 1) }
    match s.fillLine fuel char with
    | none => none
    | some s =>
      let r := s.endLine shouldScroll
      if r.2.rxRead ≠ t.uart 511 then uartLoop t fuel r.1 r.2 else some r

/-- The text is drawn again from the bottom line up. -/
def redraw (s : Scrolling) : Scrolling :=
  { s with
    bufferRead := readVar s.decr s.bufferWrite s.bufferRead
    printX := (s.bufferWriteCol - 1) * charWidth + baseX
    printY := baseY }

/-- From `main` to `skip_uart_loop`. -/
def receive {c : Nat} (fuel : Nat) (t : Tick c) (s : Scrolling) : Option Scrolling :=
  if s.rxRead = t.uart 511 then some s
  else
    match uartLoop t fuel false s with
    | none => none
    | some (shouldScroll, s) => some (if shouldScroll then s.draw (.clear 0 0 0) else s).redraw

/-! ## print_loop -/

/-- `print_loop__shift_up`. The flag says that the loop is left. -/
def shiftUp (s : Scrolling) : Bool × Scrolling :=
  let s := { s with printX := maxX, printY := s.printY + charHeight }
  (decide (s.printY > s.bufferY), s)

/-- The body of the loop up to `print_loop__no_print`, with `display_commands`. -/
def printChar (commands : Int) (s : Scrolling) : Int × Scrolling :=
  let char := readVar s.buffer s.bufferRead .null
  let s := { s with bufferRead := readVar s.decr s.bufferRead s.bufferRead }
  if char = .num lfChar ∨ char = .num spaceChar then (commands, s)
  else (commands + 1, s.draw (.print s.printX s.printY char))

def printLoop : Nat → Int → Scrolling → Option Scrolling
  | 0, _, _ => none
  | fuel + 1, commands, s =>
    let r := s.printChar commands
    let s := { r.2 with printX := r.2.printX - charWidth }
    let p := if s.printX ≥ baseX then (false, s) else s.shiftUp
    if p.1 then some p.2
    else if r.1 < 254 then printLoop fuel r.1 p.2
    else some p.2

/-- From `skip_uart_loop` to `skip_print_loop`. -/
def print {c : Nat} (fuel : Nat) (t : Tick c) (s : Scrolling) : Option Scrolling :=
  if s.printY > s.bufferY then some s
  else if s.printX < baseX then
    let p := s.shiftUp
    if p.1 then some p.2
    else if t.bufferSize < 254 then printLoop fuel t.bufferSize p.2
    else some p.2
  else printLoop fuel t.bufferSize s

/-! ## The program -/

/-- `reset`. -/
def reset (s : Scrolling) : Scrolling := { s.draw (.clear 0 0 0) with point := .resetLoop }

/-- The end of `main`, and `wait_for_cpu`. -/
def checkPower {c : Nat} (t : Tick c) (s : Scrolling) : Scrolling :=
  if t.displayPower = false then s.reset
  else if s.printY ≤ s.bufferY then { s with point := .main }
  else if t.cpuPower then { s with point := .main }
  else { s with point := .waitForCpu }

/-- The program up to the next `wait`, or one check of the power switch in `reset_loop`. -/
def step {c : Nat} (fuel : Nat) (t : Tick c) (s : Scrolling) : Option Scrolling :=
  match s.point with
  | .resetLoop => if t.displayPower then s.init fuel t else some s
  | .main =>
    match s.receive fuel t with
    | none => none
    | some s => (s.print fuel t).map (checkPower t)
  | .waitForCpu => some (if t.displayPower = false ∨ t.cpuPower then s.reset else s)

/-- The state at the start, whatever the variables hold. -/
def start (s : Scrolling) : Scrolling := s.reset

end Scrolling

end Mlogv32.Display
