import Mlogv32.Cpu.Lemmas.Fetched
import Mlogv32.Uart.Lemmas.Interrupts

/-!
# The edge detectors of the ports are independent

`update_uart_flags` keeps the detectors of the four ports in one word of flags and two words of
recorded pointers. It does for each port what a detector of its own would do.
-/

namespace Mlogv32.Uart
open Cpu Mlog Logic

/-! ## A stand-alone detector -/

/-- The detector of one FIFO, after its port's ip bit and the pointer of the last interrupt. An idle
FIFO has nothing to report, and no pointer masks its next interrupt. -/
def detect (idle : Bool) (ptr : Int) (ip : Bool) (last : Option Int) : Bool × Option Int :=
  if idle then (ip, none) else if last = some ptr then (ip, last) else (true, some ptr)

/-- The ip bit of a port and the recorded pointers of its FIFOs. -/
structure Detector where
  ip : Bool
  rx : Option Int
  tx : Option Int
  deriving DecidableEq, Repr

/-- RX is idle when it is empty, and TX when it is not. -/
def Detector.poll (d : Detector) (uart : Int → Int) : Detector :=
  let rx := detect (uart uartRxRead = uart uartRxWrite) (uart uartRxRead) d.ip d.rx
  let tx := detect (uart uartTxRead ≠ uart uartTxWrite) (uart uartTxWrite) rx.1 d.tx
  { ip := tx.1, rx := rx.2, tx := tx.2 }

/-- A byte of a packed word, where 0xff is no pointer. -/
def recorded (b : Int) : Option Int := if b = 0xff then none else some b

/-- The detector of a port in the words of the controller. -/
def detector (uartFlags : Int) (c : Controller) (u : Fin 4) : Detector :=
  { ip := bit uartFlags u.val
    rx := recorded (byteOf c.uartRxInterruptPtrs u)
    tx := recorded (byteOf c.uartTxInterruptPtrs u) }

/-! ## Packed words -/

def WordPtrs (c : Controller) : Prop := IsWord c.uartRxInterruptPtrs ∧ IsWord c.uartTxInterruptPtrs

theorem isWord_setByte {a v : Int} (ha : IsWord a) (hv : 0 ≤ v ∧ v < 256) (u : Fin 4) :
    IsWord (setByte a u v) := by
  have hu := u.isLt
  have hpow : (2 : Int) ^ (u.val * 8) ≤ 2 ^ 24 := pow_le_pow_right₀ (by decide) (by omega)
  have hpos : (0 : Int) < 2 ^ (u.val * 8) := by positivity
  have hlo : 0 ≤ v * 2 ^ (u.val * 8) := mul_nonneg hv.1 hpos.le
  have hhi : v * 2 ^ (u.val * 8) ≤ 255 * 2 ^ 24 := mul_le_mul (by omega) hpow hpos.le (by decide)
  have hshl : opShl v ((u.val * 8 : Nat) : Int) = v * 2 ^ (u.val * 8) :=
    opShl_eq v (u.val * 8) (by omega) (by omega) (by omega)
  push_cast at hshl
  rw [setByte, hshl]
  exact (ha.opAnd _).opOr ⟨hlo, by omega⟩

theorem isWord_updateUartPtr {ptr ptrs : Int} (hptrs : IsWord ptrs) (hptr : 0 ≤ ptr ∧ ptr < 256)
    (u : Fin 4) (quiet : Bool) (uartFlags : Int) :
    IsWord (updateUartPtr u.val quiet ptr uartFlags ptrs).2 := by
  rw [updateUartPtr_eq]
  split
  · exact isWord_setByte hptrs (by decide) u
  · split
    · exact hptrs
    · exact isWord_setByte hptrs hptr u

/-! ## One detector -/

/-- The two pointers of a port that the controller records fit in a byte, and are not the mark for
no pointer. -/
def BytePtrs (uart : Int → Int) : Prop :=
  (0 ≤ uart uartRxRead ∧ uart uartRxRead < 0xff) ∧ 0 ≤ uart uartTxWrite ∧ uart uartTxWrite < 0xff

theorem recorded_eq_some {b ptr : Int} (hptr : ptr ≠ 0xff) : recorded b = some ptr ↔ b = ptr := by
  rw [recorded]
  split
  · rename_i hb
    exact iff_of_false (by simp) (hb ▸ hptr.symm)
  · exact Option.some_inj

/-- One detector in the packed words. -/
theorem updateUartPtr_detect {ptr : Int} (hptr : 0 ≤ ptr ∧ ptr < 0xff) (u : Fin 4) (quiet : Bool)
    (uartFlags ptrs : Int) :
    let r := updateUartPtr u.val quiet ptr uartFlags ptrs
    (bit r.1 u.val, recorded (byteOf r.2 u)) =
      detect quiet ptr (bit uartFlags u.val) (recorded (byteOf ptrs u)) := by
  have hu : u.val < 64 := Nat.lt_trans u.isLt (by decide)
  have hne : ptr ≠ 0xff := by omega
  intro r
  rw [bit_updateUartPtr _ _ hu, byteOf_updateUartPtr _ _ (by omega : 0 ≤ ptr ∧ ptr < 256), detect]
  cases quiet with
  | true => simp [recorded]
  | false =>
      simp only [recorded_eq_some hne]
      by_cases hsame : byteOf ptrs u = ptr
      · simp [hsame]
      · simp [hsame, recorded, hne]

/-- What an iteration for one port leaves alone: all other flags and the bytes of the other ports. -/
structure Frame (u : Fin 4) (r r' : Int × Controller) : Prop where
  uartFlags : ∀ i < 64, i ≠ u.val → bit r'.1 i = bit r.1 i
  rx : ∀ u' ≠ u, byteOf r'.2.uartRxInterruptPtrs u' = byteOf r.2.uartRxInterruptPtrs u'
  tx : ∀ u' ≠ u, byteOf r'.2.uartTxInterruptPtrs u' = byteOf r.2.uartTxInterruptPtrs u'

section

variable {uarts : Uarts} {u : Fin 4}

theorem frame_updateUartFlagsStep (huart : BytePtrs (uarts u.val))
    (r : Int × Controller) : Frame u r (updateUartFlagsStep uarts r u.val) where
  uartFlags i hi hne := by
    rw [updateUartFlagsStep]
    dsimp only
    rw [bit_updateUartPtr _ _ hi, bit_updateUartPtr _ _ hi]
    simp [hne]
  rx u' hne := byteOf_updateUartPtr_of_ne _ _ (by have := huart.1; omega) hne
  tx u' hne := byteOf_updateUartPtr_of_ne _ _ (by have := huart.2; omega) hne

/-- The iteration for a port is the poll of its detector. -/
theorem detector_updateUartFlagsStep (huart : BytePtrs (uarts u.val))
    (r : Int × Controller) :
    detector (updateUartFlagsStep uarts r u.val).1 (updateUartFlagsStep uarts r u.val).2 u =
      (detector r.1 r.2 u).poll (uarts u.val) := by
  obtain ⟨hrxRead, htxWrite⟩ := huart
  have hrx := updateUartPtr_detect hrxRead u
    (uarts u.val uartRxRead = uarts u.val uartRxWrite) r.1 r.2.uartRxInterruptPtrs
  have htx := updateUartPtr_detect htxWrite u
    (uarts u.val uartTxRead ≠ uarts u.val uartTxWrite)
    (updateUartPtr u.val (uarts u.val uartRxRead = uarts u.val uartRxWrite) (uarts u.val uartRxRead) r.1
      r.2.uartRxInterruptPtrs).1 r.2.uartTxInterruptPtrs
  rw [Prod.eq_iff_fst_eq_snd_eq] at hrx htx
  simp only [Detector.poll, detector]
  rw [← hrx.1, ← hrx.2, ← htx.1, ← htx.2]
  rfl

theorem Frame.detector {r r' : Int × Controller} (h : Frame u r r') {u' : Fin 4} (hne : u' ≠ u) :
    detector r'.1 r'.2 u' = detector r.1 r.2 u' := by
  have hval : u'.val ≠ u.val := fun heq => hne (Fin.ext heq)
  rw [Uart.detector, Uart.detector, h.uartFlags u'.val (Nat.lt_trans u'.isLt (by decide)) hval,
    h.rx u' hne, h.tx u' hne]

/-- The iterations for some of the ports, each at most once. -/
theorem detector_foldl (huarts : ∀ u : Fin 4, BytePtrs (uarts u.val))
    {l : List (Fin 4)} (hl : l.Nodup) (r : Int × Controller) (u : Fin 4) :
    let r' := l.foldl (fun r u => updateUartFlagsStep uarts r u.val) r
    detector r'.1 r'.2 u =
      if u ∈ l then (detector r.1 r.2 u).poll (uarts u.val) else detector r.1 r.2 u := by
  induction l generalizing r with
  | nil => rfl
  | cons v l ih =>
      obtain ⟨hv, hl⟩ := List.nodup_cons.mp hl
      intro r'
      refine (ih hl _).trans ?_
      by_cases huv : u = v
      · subst huv
        rw [if_neg hv, if_pos List.mem_cons_self]
        exact detector_updateUartFlagsStep (huarts u) r
      · rw [(frame_updateUartFlagsStep (huarts v) r).detector huv]
        simp only [List.mem_cons, huv, false_or]

theorem flags_foldl (huarts : ∀ u : Fin 4, BytePtrs (uarts u.val))
    (l : List (Fin 4)) (r : Int × Controller) {i : Nat} (hi : i < 64) (hport : 4 ≤ i) :
    bit (l.foldl (fun r u => updateUartFlagsStep uarts r u.val) r).1 i = bit r.1 i := by
  induction l generalizing r with
  | nil => rfl
  | cons v l ih =>
      have hv := v.isLt
      rw [List.foldl_cons, ih]
      exact (frame_updateUartFlagsStep (huarts v) r).uartFlags i hi (by omega)

theorem wordPtrs_foldl (huarts : ∀ u : Fin 4, BytePtrs (uarts u.val))
    (l : List (Fin 4)) {r : Int × Controller} (hr : WordPtrs r.2) :
    WordPtrs (l.foldl (fun r u => updateUartFlagsStep uarts r u.val) r).2 := by
  induction l generalizing r with
  | nil => exact hr
  | cons v l ih =>
      obtain ⟨hrxRead, htxWrite⟩ := huarts v
      exact ih ⟨isWord_updateUartPtr hr.1 (by omega) v _ _, isWord_updateUartPtr hr.2 (by omega) v _ _⟩

end

/-! ## All polls -/

theorem updateUartFlags_eq_foldl (uarts : Uarts) (uartFlags : Int) (c : Controller) :
    updateUartFlags uarts uartFlags c =
      [0, 1, 2, 3].foldl (fun r (u : Fin 4) => updateUartFlagsStep uarts r u.val) (uartFlags, c) := rfl

def resetPtrs : Controller := { uartRxInterruptPtrs := 0xffffffff, uartTxInterruptPtrs := 0xffffffff }

/-- The words that polls lead to after a reset, whatever else the banks and the flags are at each of
them. -/
def PolledPtrs : Controller → Prop :=
  Reachable (· = resetPtrs) (fun _ poll => ∀ u : Fin 4, BytePtrs (poll.1 u.val))
    fun c (poll : Uarts × Int) => (updateUartFlags poll.1 poll.2 c).2

theorem PolledPtrs.wordPtrs {c : Controller} (h : PolledPtrs c) : WordPtrs c := by
  refine h.invariant ?_ fun c poll hword huarts => ?_
  · rintro c rfl
    exact ⟨by decide, by decide⟩
  · rw [updateUartFlags_eq_foldl]
    exact wordPtrs_foldl huarts _ hword

/-- A poll polls the detector of each port, keeps the ie bits, and stays within the words. The part
of it for one port changes nothing of another one. -/
theorem updateUartFlags_independent {c : Controller} (h : PolledPtrs c) {uarts : Uarts}
    (huarts : ∀ u : Fin 4, BytePtrs (uarts u.val)) (uartFlags : Int) :
    let r := updateUartFlags uarts uartFlags c
    (∀ u, detector r.1 r.2 u = (detector uartFlags c u).poll (uarts u.val)) ∧
    (∀ i < 64, 4 ≤ i → bit r.1 i = bit uartFlags i) ∧
    WordPtrs r.2 ∧
    ∀ r u, Frame u r (updateUartFlagsStep uarts r u.val) := by
  intro r
  have hr : r = [0, 1, 2, 3].foldl (fun r (u : Fin 4) => updateUartFlagsStep uarts r u.val)
      (uartFlags, c) :=
    updateUartFlags_eq_foldl uarts uartFlags c
  refine ⟨fun u => ?_, fun i hi hport => ?_, ?_, fun r u => frame_updateUartFlagsStep (huarts u) r⟩
  · have hmem : u ∈ ([0, 1, 2, 3] : List (Fin 4)) := by revert u; decide
    rw [hr, detector_foldl huarts (by decide), if_pos hmem]
  · rw [hr]
    exact flags_foldl huarts _ _ hi hport
  · rw [hr]
    exact wordPtrs_foldl huarts _ (h.wordPtrs)

/-- Port 2 has received a byte. -/
def byteOnPort2 : Uarts := fun u i => if u = 2 ∧ i = uartRxWrite then 1 else 0

/-- A further byte on port 2, and the last cells of port 1. -/
def busyPorts : Uarts := fun u i =>
  if u = 2 then if i = uartRxRead then 1 else if i = uartRxWrite then 2 else 0
  else if u = 1 ∧ i ∈ [uartRxRead, uartTxWrite] then 0xfe else 0

theorem updateUartFlags_independent_busyPorts :
    let c := (updateUartFlags byteOnPort2 0 resetPtrs).2
    let r := updateUartFlags busyPorts 0b11110000 c
    (∀ u, detector r.1 r.2 u = (detector 0b11110000 c u).poll (busyPorts u.val)) ∧
    (∀ i < 64, 4 ≤ i → bit r.1 i = bit 0b11110000 i) ∧
    WordPtrs r.2 ∧
    ∀ r u, Frame u r (updateUartFlagsStep busyPorts r u.val) :=
  updateUartFlags_independent
    (Reachable.next (.init rfl) (e := (byteOnPort2, 0)) (by unfold BytePtrs; decide))
      (by unfold BytePtrs; decide) 0b11110000

/-! ## Pointers of more than a byte -/

/-- Port 1 has received a byte into cell 0x10. -/
def byteOnPort1 : Uarts :=
  fun u i => if u = 1 ∧ i = uartRxRead then 0x10 else if u = 1 ∧ i = uartRxWrite then 0x11 else 0

/-- An RX pointer on one port, and the byte after that on port 1. -/
def strayPtr (u : Nat) (ptr : Int) : Uarts := fun v i =>
  if v = u ∧ i = uartRxRead then ptr else if v = 1 ∧ i = uartRxRead then 0x11 else if v = 1 ∧
    i = uartRxWrite then 0x12 else 0

/-- The controller does not mask the pointer that it records. A ninth bit on port 0 changes the
pointer of port 1, whose interrupt is lost, and on port 3 it leaves the word. A pointer that is the
mark 0xff loses its own interrupt. -/
theorem updateUartFlags_strayPtr :
    let c := (updateUartFlags byteOnPort1 0 resetPtrs).2
    let wide := updateUartFlags (strayPtr 0 0x105) 0 c
    let mark := updateUartFlags (strayPtr 0 0xff) 0 c
    (detector wide.1 wide.2 1 = { ip := false, rx := some 0x11, tx := some 0 } ∧
      (detector 0 c 1).poll (strayPtr 0 0x105 1) = { ip := true, rx := some 0x11, tx := some 0 }) ∧
    (detector mark.1 mark.2 0 = { ip := false, rx := none, tx := some 0 } ∧
      (detector 0 c 0).poll (strayPtr 0 0xff 0) = { ip := true, rx := some 0xff, tx := some 0 }) ∧
    ¬WordPtrs (updateUartFlags (strayPtr 3 0x105) 0 c).2 := by
  unfold WordPtrs IsWord
  decide +kernel

end Mlogv32.Uart
