import Mlogv32.Rust.Lemmas.Io
import Mlogv32.Uart.Lemmas.Worker

/-!
# The port delivers the bytes in order

`read` passes the ring buffer by, and `read_ready` does not look into it. Runs in which neither
happens while the ring has bytes deliver them in order.
-/

namespace Mlogv32.Rust
open Logic

/-- Nothing is lost, duplicated or reordered, and `read_ready` finds every byte. -/
structure InOrder (t : Threads Party Port Outcome) : Prop where
  stream : t.state.received = t.state.delivered ++ (t.state.ring ++ (t.state.held ++ t.state.rx))
  held : ∀ o, t.prog .port = .ret o → t.state.held = []
  ready : ∀ said available, t.prog .port = .ret (.ready said available) → said = available

/-- No call takes a byte past those in the ring, or looks for one only in the FIFO when the ring has
one. -/
theorem buffered_port_in_order {t : Threads Party Port Outcome}
    (h : Reachable (· = newPort) (Threads.Careful May) (Threads.apply body) t) : InOrder t := by
  have hcoherent := coherent h
  refine ⟨hcoherent.holds.stream, fun o ho => ?_, fun said available ho => ?_⟩
  · exact (hcoherent.done Rely.refl ho).1
  · exact (hcoherent.done Rely.refl ho).2 said available rfl

/-- The Status register of the CPU shows data while the pointers of the FIFO differ, and never an
overrun. -/
theorem statusWord_port (c : Nat) (uartFlags : Int) (u : Uart.Worker.Access) :
    let result := Uart.Worker.statusWord c (Mlog.opAnd uartFlags 0b10000) u
    (Mlog.opAnd result 0b1 ≠ 0 ↔ u.rxRead.val ≠ u.rxWrite.val) ∧ Mlog.opAnd result 0b100000 = 0 := by
  obtain ⟨-, -, hrx, -⟩ := Uart.statusWord_bits c uartFlags u
  refine ⟨not_congr hrx, ?_⟩
  have hflag : Mlog.opAnd uartFlags 0b10000 = 0 ∨ Mlog.opAnd uartFlags 0b10000 = 16 := by
    rw [Mlog.opAnd_mask uartFlags 4 1 (by decide) (by decide)]
    omega
  dsimp only [Uart.Worker.statusWord]
  rcases hflag with hflag | hflag <;> rw [hflag] <;> split_ifs <;> decide

/-! ## Runs -/

/-- A call that is run to its end. -/
def call (p : Party) (c : Call) (steps : Nat) :
    List (Event Party Call) := .start p c :: List.replicate steps (.step p)

def after (events : List (Event Party Call)) :
    Threads Party Port Outcome := events.foldl (Threads.apply body) newPort

theorem after_reachable {guard : Threads Party Port Outcome → Event Party Call → Prop}
    (events : List (Event Party Call))
    (h : ∀ i, ∀ hi : i < events.length, guard (after (events.take i)) events[i]) :
    Reachable (· = newPort) guard (Threads.apply body) (after events) := by
  have hinit : Reachable (· = newPort) guard (Threads.apply body) newPort := .init rfl
  exact hinit.run events h

/-- Two bytes are buffered, while a third one arrives, and consumed. Then `read_ready` and `read`
find the third one in the FIFO, and `read_ready` finds nothing. -/
def buffered : List (Event Party Call) :=
  call .line (.line (.receive 1)) 1 ++ call .line (.line (.receive 2)) 1 ++
    call .port (.fillBuf 1 2 2) 5 ++
    call .line (.line (.receive 3)) 1 ++ List.replicate 5 (.step .port) ++ call .port (.consume 2) 1 ++
    call .port .readReady 1 ++ call .port (.read 1 4) 6 ++ call .port .readReady 1

theorem buffered_port_in_order_buffered :
    InOrder (after buffered) ∧ (after buffered).state.delivered = [1, 2, 3] ∧
      (after buffered).prog .port = .ret (.ready false false) :=
  ⟨buffered_port_in_order (after_reachable buffered (by decide)), by decide, rfl⟩

/-- A second byte is read while the first one is in the ring. -/
def mixed : List (Event Party Call) :=
  call .line (.line (.receive 1)) 1 ++ call .line (.line (.receive 2)) 1 ++
    call .port (.fillBuf 1 1 1) 8 ++
    call .port (.read 1 1) 5 ++ call .port (.consume 1) 1

/-- The only byte is in the ring. -/
def unready : List (Event Party Call) :=
  call .line (.line (.receive 1)) 1 ++ call .port (.fillBuf 1 1 1) 8 ++ call .port .readReady 1

theorem buffered_port_reorders :
    (∃ t, Reachable (· = newPort) (Threads.Any May) (Threads.apply body) t ∧ t.state.received = [1, 2] ∧
      t.state.delivered = [2, 1]) ∧
    ∃ t, Reachable (· = newPort) (Threads.Any May) (Threads.apply body) t ∧
    t.prog .port = .ret (.ready false true) :=
  ⟨⟨after mixed, after_reachable mixed (by decide), by decide, by decide⟩,
    ⟨after unready, after_reachable unready (by decide), rfl⟩⟩

end Mlogv32.Rust
