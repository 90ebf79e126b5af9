import Mlogv32.Cpu.Config

/-!
# Hand-offs between workers

One hart is run by any number of workers and a controller. In each tick the game activates the
workers one after the other, and each of them runs its program until its budget is used up or a
statement yields. A worker that is activated behind another one starts at `next_tick`: it fetches
the variables of that worker, and goes on at its `@counter`.

The statements before `poll_interrupts` are modelled one by one. The statements behind it are a
parameter.
-/

namespace Mlogv32.Workers
open Mlog

/-! ## Variables -/

/-- The value of a variable. `Obj` are the objects other than the processors of the hart. -/
inductive Val (W Obj : Type) where
  | null
  | num (n : Int)
  | str (s : String)
  | worker (w : W)
  | controller
  | obj (o : Obj)
  deriving DecidableEq

/-- The number that an operation sees. -/
def Val.toNum {W Obj : Type} : Val W Obj → Int
  | .null => 0
  | .num n => n
  | _ => 1

abbrev Vars (W Obj : Type) := String → Val W Obj

/-- The variables that `fetch_variables` reads, in order. -/
def fetchVariables : List String :=
  ["local1", "local2", "local3", "local4", "local5", "local6", "local7", "local8",
    "nonlocal1", "nonlocal2",
    "__etext", "_address", "address", "breakpoint_address", "csr_mcycle", "csr_mie",
    "csr_minstret", "csr_mip",
    "csr_mstatus", "csr_mtime", "csr_mtimecmp", "csr_mtimecmph", "csr_mtimeh",
    "csr_stimecmp", "csr_stimecmph",
    "effective_privilege_mode", "icache_ram", "icache_var", "imm", "length", "mcause",
    "mtval", "next_pc", "op_id",
    "pc", "privilege_mode", "ram", "rd", "rd_id", "result", "rs1", "rs1_id", "rs2",
    "rs2_id", "state", "uart_flags", "value", "variable", "ret", "ret2", "ret3", "ret4"]

/-- The variables that `reset` reads from CONFIG, in order. -/
def configVariables : List String :=
  ["MEMORY_X", "MEMORY_Y", "MEMORY_WIDTH", "PROGRAM_ROM_ICACHE_SIZE", "ROM_SIZE",
    "RAM_SIZE", "RAM_END", "ICACHE_END", "RAM_ICACHE_OFFSET", "UART_FIFO_MODULO"]

/-- The variables that are the same for all workers, once they have left `reset`. -/
def constants : List String := configVariables ++ ["RAM_START_PROC"]

/-- The variables that the controller writes to the last worker in each tick. -/
def tickVariables : List String :=
  ["breakpoint_address", "uart_flags", "csr_mtime", "csr_mtimeh", "csr_mip"]

/-! ## The program -/

inductive Stmt where
  /-- `setrate 1000`. -/
  | setrate
  /-- `read x CONFIG "x"`. -/
  | config (x : String)
  /-- `op idiv RAM_START_PROC ROM_SIZE ROM_PROC_BYTES`. -/
  | ramStartProc
  /-- `wait 1e-5`. -/
  | wait
  /-- `read prev_proc CONTROLLER "prev_proc"`. -/
  | readPrevProc
  /-- `read x prev_proc "x"`. -/
  | fetch (x : String)
  /-- `jump reset notEqual state "running"`. -/
  | jumpReset
  /-- `write @this CONTROLLER "prev_proc"`. -/
  | writePrevProc
  /-- `op add csr_mcycle csr_mcycle 1`. -/
  | addMcycle
  /-- `jump reset__no_overflow lessThan csr_mcycle 0x100000000`. -/
  | jumpNoOverflow
  /-- `set csr_mcycle 0`. -/
  | setMcycle
  /-- `read __mcycleh CSRS "mcycleh"`. -/
  | readMcycleh
  /-- `op add __mcycleh __mcycleh 1`. -/
  | addMcycleh
  /-- `write __mcycleh CSRS "mcycleh"`. -/
  | writeMcycleh
  /-- `jump poll_interrupts equal prev_proc CONTROLLER`. -/
  | jumpPollInterrupts
  /-- `read __counter prev_proc "@counter"`. -/
  | readCounter
  /-- `write %next_tick% prev_proc "@counter"`. -/
  | writeCounter
  /-- `set @counter __counter`. -/
  | setCounter
  deriving DecidableEq, Repr

/-- The statements from `reset` to `next_tick`. -/
def resetStmts : List Stmt := .setrate :: configVariables.map .config ++ [.ramStartProc, .wait]

/-- The statements from `end_fetch` to `poll_interrupts`. -/
def takeOverStmts : List Stmt :=
  [.jumpReset, .writePrevProc, .addMcycle, .jumpNoOverflow, .setMcycle, .readMcycleh,
    .addMcycleh, .writeMcycleh, .jumpPollInterrupts, .readCounter, .writeCounter, .setCounter]

/-- The statements from `next_tick` to `poll_interrupts`. -/
def prologue : List Stmt := .readPrevProc :: fetchVariables.map .fetch ++ takeOverStmts

def program : List Stmt := resetStmts ++ prologue

/-! The labels, as the numbers of statements. `reset` is 0. -/

def nextTick : Nat := resetStmts.length

def noOverflow : Nat := nextTick + 1 + fetchVariables.length + 8

def pollInterrupts : Nat := program.length

/-! ## The statements from `poll_interrupts` on -/

/-- What a statement does. -/
structure Outcome (W Obj Env : Type) where
  counter : Nat
  /-- The statement is a `wait` that has started and not ended. -/
  waiting : Bool
  /-- The activation ends. -/
  yields : Bool
  vars : Vars W Obj
  env : Env

/-- The rest of the program. `Env` holds the buildings that are not workers, and their memory. -/
structure Code (W Obj Env : Type) where
  exec : Nat → Bool → Vars W Obj → Env → Outcome W Obj Env
  /-- CSRS. -/
  readMcycleh : Env → Val W Obj
  writeMcycleh : Env → Val W Obj → Env
  config : Vars W Obj

/-! ## The system -/

structure Worker (W Obj : Type) where
  /-- `@counter`. -/
  counter : Nat
  /-- The `wait` at the counter has started. -/
  waiting : Bool
  vars : Vars W Obj

structure System (W Obj Env : Type) where
  workers : W → Worker W Obj
  /-- The variables of the controller. -/
  controller : Vars W Obj
  env : Env

variable {W Obj Env : Type} [DecidableEq W]

namespace System

/-- `prev_proc` of the controller. -/
def prevProc (s : System W Obj Env) : Val W Obj := s.controller "prev_proc"

/-- The variables of a processor. -/
def vars (s : System W Obj Env) : Val W Obj → Vars W Obj
  | .worker w => (s.workers w).vars
  | .controller => s.controller
  | _ => fun _ => .null

/-- `@counter` of a processor. That of the controller is not modelled. -/
def counter (s : System W Obj Env) : Val W Obj → Nat
  | .worker w => (s.workers w).counter
  | _ => 0

/-- The `wait` at the counter of a processor has started. -/
def waiting (s : System W Obj Env) : Val W Obj → Bool
  | .worker w => (s.workers w).waiting
  | _ => false

def setWorker (s : System W Obj Env) (w : W) (x : Worker W Obj) : System W Obj Env :=
  { s with workers := Function.update s.workers w x }

/-- `write value proc x`. -/
def write (s : System W Obj Env) (x : String) (value : Val W Obj) : Val W Obj → System W Obj Env
  | .worker w => s.setWorker w { s.workers w with vars := Function.update (s.workers w).vars x value }
  | .controller => { s with controller := Function.update s.controller x value }
  | _ => s

/-- `write counter proc "@counter"`. -/
def writeCounter (s : System W Obj Env) (counter : Nat) : Val W Obj → System W Obj Env
  | .worker w => s.setWorker w { s.workers w with counter := counter }
  | _ => s

/-- The next statement is not a jump. -/
def next (s : System W Obj Env) (w : W) : System W Obj Env :=
  s.setWorker w { s.workers w with counter := (s.workers w).counter + 1 }

/-- The next statement assigns a variable. -/
def assign (s : System W Obj Env) (w : W) (x : String) (value : Val W Obj) : System W Obj Env :=
  (s.write x value (.worker w)).next w

/-- A jump to `target`, if the condition holds. -/
def jump (s : System W Obj Env) (w : W) (target : Nat) (condition : Prop) [Decidable condition] :
    System W Obj Env :=
  if condition then s.writeCounter target (.worker w) else s.next w

end System

section

variable [DecidableEq Obj] (b : Code W Obj Env)

/-- Worker `w` executes a statement before `poll_interrupts`. -/
def System.stepStmt (s : System W Obj Env) (w : W) : Stmt → System W Obj Env
  | .setrate => s.next w
  | .config x => s.assign w x (b.config x)
  | .ramStartProc =>
      s.assign w "RAM_START_PROC"
        (.num (opIdiv ((s.workers w).vars "ROM_SIZE").toNum Cpu.romProcBytes))
  | .wait =>
      if (s.workers w).waiting then (s.setWorker w { s.workers w with waiting := false }).next w
      else s.setWorker w { s.workers w with waiting := true }
  | .readPrevProc => s.assign w "prev_proc" s.prevProc
  | .fetch x => s.assign w x (s.vars ((s.workers w).vars "prev_proc") x)
  | .jumpReset => s.jump w 0 ((s.workers w).vars "state" ≠ .str "running")
  | .writePrevProc => (s.write "prev_proc" (.worker w) .controller).next w
  | .addMcycle => s.assign w "csr_mcycle" (.num (((s.workers w).vars "csr_mcycle").toNum + 1))
  | .jumpNoOverflow => s.jump w noOverflow (((s.workers w).vars "csr_mcycle").toNum < 0x100000000)
  | .setMcycle => s.assign w "csr_mcycle" (.num 0)
  | .readMcycleh => s.assign w "__mcycleh" (b.readMcycleh s.env)
  | .addMcycleh => s.assign w "__mcycleh" (.num (((s.workers w).vars "__mcycleh").toNum + 1))
  | .writeMcycleh => { s with env := b.writeMcycleh s.env ((s.workers w).vars "__mcycleh") }.next w
  | .jumpPollInterrupts => s.jump w pollInterrupts ((s.workers w).vars "prev_proc" = .controller)
  | .readCounter => s.assign w "__counter" (.num (s.counter ((s.workers w).vars "prev_proc")))
  | .writeCounter => (s.writeCounter nextTick ((s.workers w).vars "prev_proc")).next w
  | .setCounter => s.writeCounter ((s.workers w).vars "__counter").toNum.toNat (.worker w)

/-- The statement ends the activation. -/
def System.yields (s : System W Obj Env) (w : W) : Bool :=
  let x := s.workers w
  match program[x.counter]? with
  | some st => st = .wait ∧ !x.waiting
  | none => (b.exec x.counter x.waiting x.vars s.env).yields

/-- Worker `w` executes its next statement. -/
def System.step (s : System W Obj Env) (w : W) : System W Obj Env :=
  let x := s.workers w
  match program[x.counter]? with
  | some st => s.stepStmt b w st
  | none =>
      let r := b.exec x.counter x.waiting x.vars s.env
      { s.setWorker w { counter := r.counter, waiting := r.waiting, vars := r.vars } with env := r.env }

/-- An activation of worker `w` with a budget of statements. -/
def System.activate (w : W) : Nat → System W Obj Env → System W Obj Env
  | 0, s => s
  | n + 1, s => if s.yields b w then s.step b w else activate w n (s.step b w)

/-! ## The controller -/

/-- What the controller knows of the hart. -/
def fetched (v : Vars W Obj) : Vars W Obj := fun x => if x ∈ fetchVariables then v x else .null

/-- The controller fetches the variables of the last worker. -/
def System.fetch (s : System W Obj Env) : System W Obj Env :=
  { s with controller := fun x => if x ∈ fetchVariables then s.vars s.prevProc x else s.controller x }

inductive Event (W Obj Env : Type) where
  | activate (w : W) (budget : Nat)
  /-- `next_tick` of the controller, which computes the new values of some variables. -/
  | tick (f : Vars W Obj → Env → Vars W Obj)
  /-- The controller lets the hart go on behind a breakpoint. -/
  | resume
  /-- The controller stops, after the worker has asked for a halt or a reset and has jumped to
  `reset`. -/
  | halt
  /-- The power switch is off, and no `wait` of the worker is cut short. -/
  | powerOff
  /-- The controller has reset the hart, and lets the workers start. -/
  | start (v : Vars W Obj) (env : Env)

/-- The controller is in a state in which it does this. -/
def System.Allows (s : System W Obj Env) : Event W Obj Env → Prop
  | .activate _ _ => True
  | .tick _ => s.vars s.prevProc "state" = .str "running" ∨ s.vars s.prevProc "state" = .str "pause"
  | .resume => s.vars s.prevProc "state" = .str "breakpoint" ∨
      s.vars s.prevProc "state" = .str "trap_breakpoint"
  | .halt =>
      (s.vars s.prevProc "state" = .str "halt" ∨ s.vars s.prevProc "state" = .str "reset") ∧
        s.counter s.prevProc < pollInterrupts
  | .powerOff =>
      s.vars s.prevProc "state" ≠ .str "halt" ∧ s.vars s.prevProc "state" ≠ .str "reset" ∧
        s.waiting s.prevProc = false
  | .start _ _ => s.prevProc = .controller ∧ s.controller "state" = .str "halt"

instance (s : System W Obj Env) (e : Event W Obj Env) : Decidable (s.Allows e) := by
  cases e <;> unfold System.Allows <;> infer_instance

/-- The variables after the controller has written some. -/
def written (names : List String) (new old : Vars W Obj) : Vars W Obj :=
  fun x => if x ∈ names then new x else old x

/-- `write x proc "x"` for some variables. -/
def System.writeAll (s : System W Obj Env) (names : List String) (new : Vars W Obj) :
    Val W Obj → System W Obj Env
  | .worker w => s.setWorker w { s.workers w with vars := written names new (s.workers w).vars }
  | .controller => { s with controller := written names new s.controller }
  | _ => s

/-- The variables of a hart that is reset. -/
def started (v old : Vars W Obj) : Vars W Obj :=
  Function.update (written fetchVariables v old) "state" (.str "running")

def System.apply (s : System W Obj Env) (e : Event W Obj Env) : System W Obj Env :=
  if s.Allows e then
    match e with
    | .activate w n => s.activate b w n
    | .tick f =>
        let s := s.fetch
        s.writeAll tickVariables (f (fetched s.controller) s.env) s.prevProc
    | .resume =>
        let s := s.fetch
        let s := s.writeCounter (s.counter s.prevProc + 1) s.prevProc
        let s := s.write "state" (.str "running") .controller
        s.write "state" (.str "running") s.prevProc
    | .halt =>
        let s := s.fetch
        let s := s.write "prev_proc" .controller .controller
        s.write "state" (.str "halt") .controller
    | .powerOff =>
        let s := s.fetch
        let s := s.writeCounter 0 s.prevProc
        let s := s.write "prev_proc" .controller .controller
        s.write "state" (.str "halt") .controller
    | .start v env => { s with controller := started v s.controller, env := env }
  else s

/-! ## A single thread -/

/-- A hart that is never handed over. At 0 it is stopped. -/
structure Thread (W Obj Env : Type) where
  counter : Nat
  waiting : Bool
  vars : Vars W Obj
  env : Env

inductive ThreadEvent (W Obj Env : Type) where
  /-- The statement at this counter. -/
  | step (counter : Nat)
  /-- The increment of mcycle. -/
  | handOff
  | tick (f : Vars W Obj → Env → Vars W Obj)
  | resume
  | halt
  | start (v : Vars W Obj) (env : Env)

/-- mcycle and mcycleh are incremented. -/
def Thread.incrementMcycle (t : Thread W Obj Env) : Thread W Obj Env :=
  let mcycle := (t.vars "csr_mcycle").toNum + 1
  if mcycle < 0x100000000 then { t with vars := Function.update t.vars "csr_mcycle" (.num mcycle) }
  else
    { t with
      vars := Function.update t.vars "csr_mcycle" (.num 0)
      env := b.writeMcycleh t.env (.num ((b.readMcycleh t.env).toNum + 1)) }

/-- The thread can do this next. -/
def Thread.Allows (t : Thread W Obj Env) : ThreadEvent W Obj Env → Prop
  | .step counter => counter = t.counter ∧ pollInterrupts ≤ counter
  | .handOff => t.counter ≠ 0 ∧ t.waiting = false ∧ t.vars "state" = .str "running"
  | .tick _ => t.counter ≠ 0 ∧ (t.vars "state" = .str "running" ∨ t.vars "state" = .str "pause")
  | .resume =>
      t.counter ≠ 0 ∧ (t.vars "state" = .str "breakpoint" ∨ t.vars "state" = .str "trap_breakpoint")
  | .halt => t.waiting = false
  | .start _ _ => t.counter = 0 ∧ t.vars "state" = .str "halt"

instance (t : Thread W Obj Env) (e : ThreadEvent W Obj Env) : Decidable (t.Allows e) := by
  cases e <;> unfold Thread.Allows <;> infer_instance

def Thread.apply (t : Thread W Obj Env) : ThreadEvent W Obj Env → Thread W Obj Env
  | .step _ =>
      let r := b.exec t.counter t.waiting t.vars t.env
      { counter := r.counter, waiting := r.waiting, vars := r.vars, env := r.env }
  | .handOff => t.incrementMcycle b
  | .tick f => { t with vars := written tickVariables (f (fetched t.vars) t.env) t.vars }
  | .resume =>
      { t with counter := t.counter + 1, vars := Function.update t.vars "state" (.str "running") }
  | .halt => { t with counter := 0, vars := Function.update t.vars "state" (.str "halt") }
  | .start v env => { counter := pollInterrupts, waiting := false, vars := started v t.vars, env := env }

def Thread.run : Thread W Obj Env → List (ThreadEvent W Obj Env) → Option (Thread W Obj Env)
  | t, [] => some t
  | t, e :: es => if t.Allows e then run (t.apply b e) es else none

/-- What the next statement of a worker is for the thread. -/
def System.stepEvents (s : System W Obj Env) (w : W) : List (ThreadEvent W Obj Env) :=
  match program[(s.workers w).counter]? with
  | some st => if st = .writePrevProc then [.handOff] else []
  | none => [.step (s.workers w).counter]

def System.activateEvents (w : W) : Nat → System W Obj Env → List (ThreadEvent W Obj Env)
  | 0, _ => []
  | n + 1, s => s.stepEvents w ++ if s.yields b w then [] else activateEvents w n (s.step b w)

def System.events (s : System W Obj Env) (e : Event W Obj Env) : List (ThreadEvent W Obj Env) :=
  if s.Allows e then
    match e with
    | .activate w n => s.activateEvents b w n
    | .tick f => [.tick f]
    | .resume => [.resume]
    | .halt | .powerOff => [.halt]
    | .start v env => [.start v env]
  else []

/-- What a run of the system is for the thread: each statement that a worker executes from
`poll_interrupts` on is one step, and each hand-off an increment of mcycle. -/
def System.trace : System W Obj Env → List (Event W Obj Env) → List (ThreadEvent W Obj Env)
  | _, [] => []
  | s, e :: es => s.events b e ++ trace (s.apply b e) es

end

/-! ## What the workers rely on -/

/-- The rest of the program, with an invariant of a hart that runs it. -/
structure Body (W Obj Env : Type) extends Code W Obj Env where
  /-- A statement assigns variables that are fetched. -/
  frame : ∀ c b v env, ∀ x ∉ fetchVariables, (exec c b v env).vars x = v x
  /-- A statement reads variables that are fetched, and constants. -/
  congr : ∀ c b v v' env, (∀ x ∈ fetchVariables ++ constants, v' x = v x) →
    ((exec c b v' env).counter = (exec c b v env).counter ∧ (exec c b v' env).waiting =
      (exec c b v env).waiting ∧
      (exec c b v' env).yields = (exec c b v env).yields ∧
      (exec c b v' env).env = (exec c b v env).env) ∧
      ∀ x ∈ fetchVariables, (exec c b v' env).vars x = (exec c b v env).vars x
  /-- What holds of the hart between two statements. -/
  Inv : Thread W Obj Env → Prop
  /-- What the controller lets a hart start with. -/
  Starts : Vars W Obj → Env → Prop
  inv : ∀ t e, (t.counter ≠ 0 → Inv t) → t.Allows e → (∀ v env, e = .start v env → Starts v env) →
    (t.apply toCode e).counter ≠ 0 → Inv (t.apply toCode e)
  /-- A statement jumps to `reset` only after it, or one before it, has set `state` to halt or to
  reset the hart. -/
  counter : ∀ t, Inv t → t.Allows (.step t.counter) →
    pollInterrupts ≤ (t.apply toCode (.step t.counter)).counter ∨
      ((t.apply toCode (.step t.counter)).counter = 0 ∧
        (t.apply toCode (.step t.counter)).waiting = false ∧
        (t.apply toCode (.step t.counter)).vars "state" ∈ [Val.str "halt", Val.str "reset"])
  /-- A worker waits only in `pause_one_tick`. -/
  waiting : ∀ t, Inv t → t.Allows (.step t.counter) → (t.apply toCode (.step t.counter)).waiting = true →
    (t.apply toCode (.step t.counter)).vars "state" = .str "pause"

instance : Coe (Body W Obj Env) (Code W Obj Env) := ⟨Body.toCode⟩

end Mlogv32.Workers
