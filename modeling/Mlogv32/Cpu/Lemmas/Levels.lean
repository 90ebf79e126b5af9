import Mlogv32.Cpu.Lemmas.Privilege
import Mlogv32.Cpu.Theorems.Csr

/-!
# Pending bits that follow a level

MEIP, MTIP and STIP are computed by `poll_interrupts` from the UART flags and the timers. `NotStale`
says that they are right or that the poll flag is raised, and each instruction keeps it unless it is
`Stale`.
-/

namespace Mlogv32.Cpu
open Mlog Logic Isa

variable {cfg : PageConfig} {s : Hart}

/-! ## Levels -/

/-- Some UART has its interrupt pending and enabled. -/
def UartLevel (uartFlags : Int) : Prop := ∃ k < 4, bit uartFlags k = true ∧ bit uartFlags (k + 4) = true

/-- A 64-bit register of the machine timer. -/
def timer (high low : Int) : Int := high * 2 ^ 32 + low

structure LevelsOk (s : Hart) : Prop where
  meip : bit s.csrMip 11 = true ↔ UartLevel s.uartFlags
  mtip : bit s.csrMip 7 = true ↔ timer s.csrMtimecmph s.csrMtimecmp ≤ timer s.csrMtimeh s.csrMtime
  stip : bit s.csrMip 5 = true ↔ timer s.csrStimecmph s.csrStimecmp ≤ timer s.csrMtimeh s.csrMtime

/-- The poll flag is raised, or the pending bits are right. -/
def NotStale (s : Hart) : Prop := bit s.csrMip 31 = true ∨ LevelsOk s

/-- The UART flags have their eight bits, and the low halves of the timers are words. -/
structure LevelRanges (s : Hart) : Prop where
  flags : Within 0xff s.uartFlags
  mtime : IsWord s.csrMtime
  mtimecmp : IsWord s.csrMtimecmp
  stimecmp : IsWord s.csrStimecmp

/-- What the levels depend on is as before. -/
structure LevelFrame (s s' : Hart) : Prop where
  mip : ∀ n ∈ [31, 11, 7, 5], bit s'.csrMip n = bit s.csrMip n
  flags : s'.uartFlags = s.uartFlags
  mtime : s'.csrMtime = s.csrMtime ∧ s'.csrMtimeh = s.csrMtimeh
  mtimecmp : s'.csrMtimecmp = s.csrMtimecmp ∧ s'.csrMtimecmph = s.csrMtimecmph
  stimecmp : s'.csrStimecmp = s.csrStimecmp ∧ s'.csrStimecmph = s.csrStimecmph

theorem LevelFrame.refl (s : Hart) : LevelFrame s s :=
  ⟨fun _ _ => rfl, rfl, ⟨rfl, rfl⟩, ⟨rfl, rfl⟩, ⟨rfl, rfl⟩⟩

theorem LevelFrame.ranges {s' : Hart} (h : LevelFrame s s') (hr : LevelRanges s) : LevelRanges s' :=
  ⟨h.flags ▸ hr.flags, h.mtime.1 ▸ hr.mtime, h.mtimecmp.1 ▸ hr.mtimecmp, h.stimecmp.1 ▸ hr.stimecmp⟩

theorem LevelFrame.notStale {s' : Hart} (h : LevelFrame s s') (hn : NotStale s) : NotStale s' := by
  rcases hn with hpoll | hok
  · exact Or.inl ((h.mip 31 (by decide)).trans hpoll)
  · refine Or.inr ⟨?_, ?_, ?_⟩
    · rw [h.mip 11 (by decide), h.flags]
      exact hok.meip
    · rw [h.mip 7 (by decide), h.mtime.1, h.mtime.2, h.mtimecmp.1, h.mtimecmp.2]
      exact hok.mtip
    · rw [h.mip 5 (by decide), h.mtime.1, h.mtime.2, h.stimecmp.1, h.stimecmp.2]
      exact hok.stip

theorem LevelFrame.of_mip {s' : Hart} (hs : s' = { s with csrMip := s'.csrMip })
    (hmip : ∀ n ∈ [31, 11, 7, 5], bit s'.csrMip n = bit s.csrMip n) : LevelFrame s s' := by
  rw [hs]
  exact ⟨hmip, rfl, ⟨rfl, rfl⟩, ⟨rfl, rfl⟩, ⟨rfl, rfl⟩⟩

theorem bit_opOr_fireFlag (mip : Int) {n : Nat} (hn : n ∈ [31, 11, 7, 5]) :
    bit (opOr mip 0b01000000000000000000000000000000) n = bit mip n := by
  have hflag : ∀ n ∈ [31, 11, 7, 5], bit 0b01000000000000000000000000000000 n = false := by decide
  rw [bit_opOr, hflag n hn, Bool.or_false]

/-- A load clears an interrupt flag only if it raises the poll flag. -/
theorem LoadFrame.levels {s' : Hart} (h : LoadFrame s s') :
    LevelFrame s s' ∨ (LevelRanges s → LevelRanges s') ∧ bit s'.csrMip 31 = true := by
  obtain ⟨flags, mip, uarts, rfl, hflags⟩ := h
  rcases hflags with ⟨rfl, rfl⟩ | ⟨hwithin, rfl⟩
  · exact Or.inl ⟨fun _ _ => rfl, rfl, ⟨rfl, rfl⟩, ⟨rfl, rfl⟩, ⟨rfl, rfl⟩⟩
  · refine Or.inr ⟨fun hr => ⟨hwithin _ hr.flags, hr.mtime, hr.mtimecmp, hr.stimecmp⟩, ?_⟩
    rw [bit_opOr, show bit 0b10000000000000000000000000000000 31 = true by decide, Bool.or_true]

/-! ## Polling -/

theorem uartLevel_iff {flags : Int} (h : Within 0xff flags) :
    opAnd (opShr flags 4) flags ≠ 0 ↔ UartLevel flags := by
  have hhigh {n : Nat} (hn : 8 ≤ n) : bit flags n = false :=
    h.bit_eq_false (bit_of_lt (k := 8) (by decide) (by decide) hn)
  rw [ne_eq, opAnd_eq_zero]
  constructor
  · intro h
    by_contra hnone
    refine h fun i hi => ?_
    by_cases h8 : 8 ≤ i
    · rw [hhigh h8, Bool.and_false]
    · rw [show (4 : Int) = ((4 : Nat) : Int) from rfl, bit_opShr _ (by decide) (by omega)]
      by_cases h4 : 4 ≤ i
      · rw [hhigh (by omega), Bool.false_and]
      · by_contra hbits
        obtain ⟨hie, hip⟩ := Bool.and_eq_true_iff.mp (Bool.eq_true_of_not_eq_false hbits)
        exact hnone ⟨i, by omega, hip, hie⟩
  · rintro ⟨k, hk, hip, hie⟩ h
    have hk' := h k (by omega)
    rw [show (4 : Int) = ((4 : Nat) : Int) from rfl, bit_opShr _ (by decide) (by omega), hip, hie] at hk'
    exact absurd hk' (by decide)

theorem timerPending_iff (mtimeh timecmph : Int) {mtime timecmp : Int} (hmtime : IsWord mtime)
    (htimecmp : IsWord timecmp) :
    timerPending mtimeh mtime timecmph timecmp = true ↔ timer timecmph timecmp ≤ timer mtimeh mtime := by
  obtain ⟨h0, h1⟩ := hmtime
  obtain ⟨h2, h3⟩ := htimecmp
  unfold timerPending timer
  simp only [Bool.and_eq_true, Bool.not_eq_true', decide_eq_false_iff_not,
    Bool.or_eq_true, decide_eq_true_eq]
  omega

/-- Bit `n` of mip after a level is or'ed into it. -/
theorem bit_ite_opOr {c : Prop} [Decidable c] {mip mask : Int} (n : Nat) :
    bit (if c then opOr mip mask else mip) n = (bit mip n || decide c && bit mask n) := by
  split
  · rename_i hc
    rw [bit_opOr, decide_eq_true hc, Bool.true_and]
  · rename_i hc
    rw [decide_eq_false hc, Bool.false_and, Bool.or_false]

theorem bit_ite_zero {c : Prop} [Decidable c] {mask : Int} (n : Nat) :
    bit (if c then mask else 0) n = (decide c && bit mask n) := by
  split
  · rename_i hc
    rw [decide_eq_true hc, Bool.true_and]
  · rename_i hc
    rw [decide_eq_false hc, Bool.false_and]
    exact bit_of_lt (k := 0) (by decide) (by decide) (Nat.zero_le n)

theorem pollInterrupts_levels (hr : LevelRanges s) : LevelsOk (pollInterrupts s) := by
  have hmip (n : Nat) : bit (pollInterrupts s).csrMip n =
      (bit s.csrMip n && bit 0b01111111111111111111011101011111 n ||
        decide (opAnd (opShr s.uartFlags 4) s.uartFlags ≠ 0) && bit 0b100000000000 n ||
        decide (timerPending s.csrMtimeh s.csrMtime s.csrMtimecmph s.csrMtimecmp = true) &&
          bit 0b10000000 n ||
        decide (timerPending s.csrMtimeh s.csrMtime s.csrStimecmph s.csrStimecmp = true) &&
          bit 0b100000 n) := by
    rw [pollInterrupts, bit_ite_opOr, bit_ite_opOr, bit_opOr, bit_opAnd, bit_ite_zero]
  constructor
  · have hbits : bit 0b01111111111111111111011101011111 11 = false ∧ bit 0b100000000000 11 = true ∧
        bit 0b10000000 11 = false ∧ bit 0b100000 11 = false := by decide
    have huart := uartLevel_iff hr.flags
    refine Iff.trans ?_ huart
    simp [hmip, hbits]
  · have hbits : bit 0b01111111111111111111011101011111 7 = false ∧ bit 0b100000000000 7 = false ∧
        bit 0b10000000 7 = true ∧ bit 0b100000 7 = false := by decide
    have hpending := timerPending_iff s.csrMtimeh s.csrMtimecmph hr.mtime hr.mtimecmp
    refine Iff.trans ?_ hpending
    simp [hmip, hbits]
  · have hbits : bit 0b01111111111111111111011101011111 5 = false ∧ bit 0b100000000000 5 = false ∧
        bit 0b10000000 5 = false ∧ bit 0b100000 5 = true := by decide
    have hpending := timerPending_iff s.csrMtimeh s.csrStimecmph hr.mtime hr.stimecmp
    refine Iff.trans ?_ hpending
    simp [hmip, hbits]

/-! ## UART control registers -/

/-- A new enable flag of UART `k` changes the level: its interrupt is pending, and no other UART has
an enabled one. -/
def TogglesLevel (uartFlags : Int) (k : Nat) (enable : Bool) : Prop :=
  bit uartFlags k = true ∧ enable ≠ bit uartFlags (k + 4) ∧
    ∀ j < 4, j ≠ k → ¬(bit uartFlags j = true ∧ bit uartFlags (j + 4) = true)

instance (uartFlags : Int) (k : Nat) (enable : Bool) : Decidable (TogglesLevel uartFlags k enable) :=
  inferInstanceAs (Decidable (_ ∧ _))

/-- The UART flags after a store of `value` to the control register of UART `k`. -/
def controlFlags (uartFlags value : Int) (k : Nat) : Int :=
  opOr (opAnd uartFlags (opNot (opShl 0b10000 k))) (opShl (opAnd value 0b10000) k)

theorem controlFlags_bit (uartFlags value : Int) {k n : Nat} (hk : k < 4) (hn : n < 64) :
    bit (controlFlags uartFlags value k) n = if n = k + 4 then bit value 4 else bit uartFlags n := by
  have hsixteen (i : Nat) : bit 0b10000 i = decide (i = 4) := bit_two_pow (k := 4) (by decide) i
  rw [controlFlags, bit_opOr, bit_opAnd, bit_opNot _ hn, bit_opShl _ (by omega) hn,
    bit_opShl _ (by omega) hn, bit_opAnd, hsixteen]
  by_cases h : n = k + 4
  · subst h
    simp
  · by_cases hle : k ≤ n
    · have : n - k ≠ 4 := by omega
      simp [h, this]
    · simp [h, hle]

theorem controlFlags_within {uartFlags : Int} (h : Within 0xff uartFlags) (value : Int) {k : Nat}
    (hk : k < 4) :
    Within 0xff (controlFlags uartFlags value k) := by
  refine (h.opAnd _).opOr ?_
  have hvalue := opAnd_two_pow value (k := 4) (by decide)
  change opAnd value 0b10000 = _ at hvalue
  rw [hvalue]
  have hall : ∀ k < 4, Within 0xff (opShl (2 ^ 4) (k : Nat)) ∧
    Within 0xff (opShl 0 (k : Nat)) := by decide
  split
  · exact (hall k hk).1
  · exact (hall k hk).2

theorem controlFlags_level {uartFlags value : Int} {k : Nat} (hk : k < 4)
    (h : ¬TogglesLevel uartFlags k (bit value 4)) :
    UartLevel (controlFlags uartFlags value k) ↔ UartLevel uartFlags := by
  have hip {j : Nat} (hj : j < 4) : bit (controlFlags uartFlags value k) j = bit uartFlags j := by
    rw [controlFlags_bit _ _ hk (by omega), if_neg (by omega)]
  have hie {j : Nat} (hj : j < 4) (hne : j ≠ k) :
      bit (controlFlags uartFlags value k) (j + 4) = bit uartFlags (j + 4) := by
    rw [controlFlags_bit _ _ hk (by omega), if_neg (by omega)]
  have hself : bit (controlFlags uartFlags value k) (k + 4) = bit value 4 := by
    rw [controlFlags_bit _ _ hk (by omega), if_pos rfl]
  by_cases hother : ∃ j < 4, j ≠ k ∧ bit uartFlags j = true ∧ bit uartFlags (j + 4) = true
  · obtain ⟨j, hj, hne, hset, hset'⟩ := hother
    exact iff_of_true ⟨j, hj, (hip hj).trans hset, (hie hj hne).trans hset'⟩ ⟨j, hj, hset, hset'⟩
  · have hother' : ∀ j < 4, j ≠ k → ¬(bit uartFlags j = true ∧ bit uartFlags (j + 4) = true) :=
      fun j hj hne hb => hother ⟨j, hj, hne, hb⟩
    have hkeep : bit uartFlags k = true → bit value 4 = bit uartFlags (k + 4) := fun hpending =>
      not_not.mp fun hne => h ⟨hpending, hne, hother'⟩
    constructor
    · rintro ⟨j, hj, hset, hset'⟩
      rw [hip hj] at hset
      by_cases hjk : j = k
      · subst hjk
        exact ⟨j, hj, hset, by rw [← hkeep hset, ← hself]; exact hset'⟩
      · rw [hie hj hjk] at hset'
        exact absurd ⟨hset, hset'⟩ (hother' j hj hjk)
    · rintro ⟨j, hj, hset, hset'⟩
      by_cases hjk : j = k
      · subst hjk
        exact ⟨j, hj, (hip hj).trans hset, by rw [hself, hkeep hset]; exact hset'⟩
      · exact absurd ⟨hset, hset'⟩ (hother' j hj hjk)

/-- The end raises the poll flag. -/
def End.polls : End → Bool
  | .endInstructionWithRdAndPollInterrupts _ _ => true
  | _ => false

/-- A store to MMIO writes a machine timer, the control register of a UART, or a bank. -/
theorem storeMmio_cases {address value : Int} {e : End} {s' : Hart} (halign : address % 4 = 0)
    (ha : mmioStart ≤ address ∧ address < mmioStart + 0x50)
    (hx : storeMmioWordUnchecked cfg address value s = .ok e s') :
    (e.polls = true ∧ ∃ a b c d,
      s' = { s with csrMtime := a, csrMtimeh := b, csrMtimecmp := c, csrMtimecmph := d } ∧
      (IsWord value → IsWord s.csrMtime → IsWord a) ∧ (IsWord value → IsWord s.csrMtimecmp → IsWord c)) ∨
    (∃ uarts, s' = { s with uarts := uarts }) ∨
    ∃ k < 4, address = mmioStart + uartControlOffset + uartMmioSize * (k : Nat) ∧
      ∃ uarts, s' = { s with uartFlags := controlFlags s.uartFlags value k, uarts := uarts } := by
  have h : wp (storeMmioWordUnchecked cfg address value) (fun e s' =>
      (e.polls = true ∧ ∃ a b c d,
        s' = { s with csrMtime := a, csrMtimeh := b, csrMtimecmp := c, csrMtimecmph := d } ∧
        (IsWord value → IsWord s.csrMtime → IsWord a) ∧
        (IsWord value → IsWord s.csrMtimecmp → IsWord c)) ∨
      (∃ uarts, s' = { s with uarts := uarts }) ∨
      ∃ k < 4, address = mmioStart + uartControlOffset + uartMmioSize * (k : Nat) ∧
        ∃ uarts, s' = { s with uartFlags := controlFlags s.uartFlags value k, uarts := uarts })
          (fun _ _ => True) s := by
    simp only [storeMmioWordUnchecked, wp_bind, wp_get, wp_ite, wp_set, wp_pure]
    refine ⟨fun huart => ⟨fun _ => Or.inr (Or.inl ⟨_, rfl⟩), fun _ =>
      ⟨fun hcontrol => Or.inr (Or.inr ?_),
      fun _ => Or.inr (Or.inl ⟨s.uarts, rfl⟩)⟩⟩, fun _ => Or.inl ⟨rfl, ?_⟩⟩
    · obtain ⟨t, ht⟩ := Int.eq_ofNat_of_zero_le (a := address - mmioStart - uartRxOffset) (by omega)
      have hlt : t < 64 := by
        unfold uartRxOffset at ht
        omega
      have hoffset : (accessUart cfg s (address - mmioStart)).offset = t % 16 + 16 := by
        simp only [accessUart, ht]
        rw [opMod_eq (by omega) (by decide)]
        rfl
      have hshift : (accessUart cfg s (address - mmioStart)).uartShift = ((t / 16 : Nat) : Int) := by
        simp only [accessUart, ht]
        rw [opIdiv_eq _ (by decide)]
        rfl
      rw [hoffset, uartControlOffset] at hcontrol
      refine ⟨t / 16, by omega, ?_, ?_⟩
      · unfold uartRxOffset at ht
        unfold uartControlOffset uartMmioSize
        omega
      · unfold storeUartControl
        rw [hshift]
        exact ⟨_, rfl⟩
    · split_ifs
      · exact ⟨_, _, _, _, rfl, fun hv _ => hv, fun _ h => h⟩
      · exact ⟨_, _, _, _, rfl, fun _ h => h, fun _ h => h⟩
      · exact ⟨_, _, _, _, rfl, fun _ h => h, fun hv _ => hv⟩
      · exact ⟨_, _, _, _, rfl, fun _ h => h, fun _ h => h⟩
  exact (wp_ok h hx :)

/-! ## Stale writes -/

/-- The word that a store writes to a control register, which reads as 0. -/
def controlWord (op : StoreOp) (address rs2 : Int) : Int :=
  if op = .sw then rs2 else insertValue 0 address rs2 (8 * op.bytes)

/-- A store to a control register changes the level of MEIP, and the poll flag is not raised. -/
def StaleControl (cfg : PageConfig) (label : Label) (d : Fetched) (rs1 rs2 : Int) (s : Hart) : Prop :=
  ∃ op a s₁, ∃ k < 4, memOp label = some (.store op) ∧
    setupLoadAndStoreValue cfg 6 rs1 d.imm (8 * op.bytes) s = .ok a s₁ ∧
    opAnd a 0xfffffffc = mmioStart + uartControlOffset + uartMmioSize * (k : Nat) ∧
    bit s₁.csrMip 31 = false ∧ TogglesLevel s₁.uartFlags k (bit (controlWord op a rs2) 4)

/-- A write of sip inverts a delegated bit among MEIP, MTIP and STIP, and the poll flag is not
raised. -/
def StaleSip (cfg : PageConfig) (label : Label) (d : Fetched) (rs1 : Int) (s : Hart) : Prop :=
  ∃ op x, csrOperand d rs1 label = some (op, x) ∧ d.imm = sipCsr ∧ ¬op.readsOnly d ∧
  bit s.csrMip 31 = false ∧
    ∃ n ∈ [11, 7, 5], bit (s.csr cfg midelegCsr) n = true ∧ op.flips (bit x n) (bit s.csrMip n) = true

/-- The load of a control register in a store of 8 or 16 bits. -/
theorem loadControl {a : Int} {k : Nat} (hk : k < 4) (hsyscon : a ≠ syscon) (hlo : mmioStart ≤ a)
    (hhi : a < 2 ^ 32)
    (ha : opAnd a 0xfffffffc = mmioStart + uartControlOffset + uartMmioSize * (k : Nat))
    (trap : Trap) :
    loadRamOrMmioWord cfg a trap s = .ok 0 s := by
  have hmask : opAnd a 0xfffffffc = a / 4 % 2 ^ 30 * 4 := by
    rw [opAnd_mask a 2 30 (by decide) (by decide)]
    omega
  have hoffset : opAnd (a - mmioStart) 0x3fffffffc = 28 + 16 * k := by
    rw [opAnd_mask (a - mmioStart) 2 32 (by decide) (by decide)]
    rw [hmask] at ha
    unfold mmioStart uartControlOffset uartMmioSize at *
    omega
  have haccess : (accessUart cfg s (28 + 16 * (k : Int))).offset = uartControlOffset := by
    simp only [accessUart, uartRxOffset, uartMmioSize]
    rw [opMod_eq (by omega) (by decide)]
    unfold uartControlOffset
    omega
  rw [loadRamOrMmioWord, if_pos hlo, loadMmioWord, bind_get, if_neg hsyscon]
  dsimp only
  rw [hoffset, if_neg (by omega), if_pos (by unfold uartRxOffset; omega), haccess,
    if_neg (by decide), if_neg (by decide)]
  rfl

/-- A store to MMIO that follows the translation `s₁` and the load `s₂` of an instruction. -/
theorem storeMmio_levels {label : Label} {d : Fetched} {rs1 rs2 a value : Int} {op : StoreOp} {e : End}
    {s₁ s₂ s' : Hart} (hop : memOp label = some (.store op))
    (hsetup : setupLoadAndStoreValue cfg 6 rs1 d.imm (8 * op.bytes) s = .ok a s₁)
    (ha : mmioStart ≤ a ∧ Mapped cfg s a) (hsyscon : a ≠ syscon) (hvalue : IsWord value)
    (hx : storeMmioWordUnchecked cfg (opAnd a 0xfffffffc) value s₂ = .ok e s')
    (hwritten : if op = .sw then value = rs2 ∧ s₂ = s₁ else
      ∃ w, loadRamOrMmioWord cfg a { mcause := 7, mtval := effectiveAddress rs1 d.imm } s₁ = .ok w s₂ ∧
        value = insertValue w a rs2 (8 * op.bytes))
    (hr : LevelRanges s₂) (hn : NotStale s₂) (hcontrol : ¬StaleControl cfg label d rs1 rs2 s) :
    LevelRanges s' ∧ (e.polls = true ∨ NotStale s') := by
  have hmask : opAnd a 0xfffffffc = a / 4 % 2 ^ 30 * 4 := by
    rw [opAnd_mask a 2 30 (by decide) (by decide)]
    omega
  have hhi : a < mmioStart + 0x50 := by
    have hram := cfg.ramSize_le
    rcases ha.2 with h | h | h | h
    · have := h.2
      unfold PageConfig.ramEnd ramStart at this
      unfold mmioStart
      omega
    · exact absurd h hsyscon
    · exact h.2
    · omega
  have haligned : opAnd a 0xfffffffc % 4 = 0 ∧ mmioStart ≤ opAnd a 0xfffffffc ∧
      opAnd a 0xfffffffc < mmioStart + 0x50 := by
    have hlo := ha.1
    rw [hmask]
    unfold mmioStart at *
    omega
  rcases storeMmio_cases haligned.1 haligned.2 hx with
    ⟨hpolls, b, c, b', c', rfl, hb, hb'⟩ | ⟨uarts, rfl⟩ |
    ⟨k, hk, haddress, uarts, rfl⟩
  · exact ⟨⟨hr.flags, hb hvalue hr.mtime, hb' hvalue hr.mtimecmp, hr.stimecmp⟩, Or.inl hpolls⟩
  · have hsame : LevelFrame s₂ { s₂ with uarts := uarts } :=
      ⟨fun _ _ => rfl, rfl, ⟨rfl, rfl⟩, ⟨rfl, rfl⟩, ⟨rfl, rfl⟩⟩
    exact ⟨hsame.ranges hr, Or.inr (hsame.notStale hn)⟩
  · refine ⟨⟨controlFlags_within hr.flags value hk, hr.mtime, hr.mtimecmp, hr.stimecmp⟩, Or.inr ?_⟩
    have hword : value = controlWord op a rs2 ∧ s₂ = s₁ := by
      unfold controlWord
      split at hwritten
      · rename_i hsw
        exact ⟨by rw [if_pos hsw]; exact hwritten.1, hwritten.2⟩
      · rename_i hsw
        obtain ⟨w, hload, rfl⟩ := hwritten
        rw [loadControl hk hsyscon ha.1 (by unfold mmioStart at hhi; omega) haddress] at hload
        obtain ⟨rfl, rfl⟩ := EStateM.Result.ok.inj hload
        exact ⟨by rw [if_neg hsw], rfl⟩
    obtain ⟨rfl, rfl⟩ := hword
    rcases hn with hpoll | hok
    · exact Or.inl hpoll
    · cases hpoll : bit s₂.csrMip 31 with
      | true => exact Or.inl hpoll
      | false =>
          have hlevel := @controlFlags_level _ (controlWord op a rs2) _ hk fun htoggles =>
            hcontrol ⟨op, a, s₂, k, hk, hop, hsetup, haddress, hpoll, htoggles⟩
          exact Or.inr ⟨hok.meip.trans hlevel.symm, hok.mtip, hok.stip⟩

theorem csrEntry_pending (n : Nat) : ((csrEntry n).write = .sip → n = sipCsr) ∧
    ((csrEntry n).write = .mip → (csrEntry n).mask = 0b00000000000000000000001000000010) := by
  have hall : ∀ e ∈ csrEntries, (e.write = .sip → e.number = sipCsr) ∧
      (e.write = .mip → e.mask = 0b00000000000000000000001000000010) := by decide +kernel
  have hentry := csrEntry_of_forall (p := fun e => (e.write = .sip → e.number = sipCsr) ∧
    (e.write = .mip → e.mask = 0b00000000000000000000001000000010)) (n :=
      n) (fun e he _ => hall e he) ⟨nofun, nofun⟩
  rwa [csrEntry_number] at hentry

/-- A write of a CSR other than sip, or one of sip that inverts no level. -/
theorem csrWrite_levels {op : ModifyCsrOp} {n : Nat} {x rd rdId : Int}
    (hp : PrivilegeOk cfg s) (hr : LevelRanges s) (hn : NotStale s)
    (hread : csrRead cfg n (.var n) (csrEntry n).read s = .ok rd s)
    (hsip : n = sipCsr → bit s.csrMip 31 = false →
      ∀ n ∈ [11, 7, 5], ¬(bit (s.csr cfg midelegCsr) n = true ∧
        op.flips (bit x n) (bit s.csrMip n) = true)) :
    LevelRanges (csrWriteHart cfg (.var n) (op.masked (csrEntry n) x rd) s (csrEntry n).write) ∧
      ((csrWriteEnd rdId rd (csrEntry n).write).polls = true ∨
        NotStale (csrWriteHart cfg (.var n) (op.masked (csrEntry n) x rd) s (csrEntry n).write)) := by
  have hmasked : IsWord (op.masked (csrEntry n) x rd) := by
    have hlt := csrEntry_mask_lt n
    exact opAnd_lt (k := 32) (by decide) (by omega) (by exact_mod_cast hlt)
  have hframe {s' : Hart} {e : End} (h : LevelFrame s s') : LevelRanges s' ∧
      (e.polls = true ∨ NotStale s') :=
    ⟨h.ranges hr, Or.inr (h.notStale hn)⟩
  obtain ⟨hsipEntry, hmipEntry⟩ := csrEntry_pending n
  cases hw : (csrEntry n).write with
  | stimecmp => exact ⟨⟨hr.flags, hr.mtime, hr.mtimecmp, hmasked⟩, Or.inl rfl⟩
  | stimecmph => exact ⟨⟨hr.flags, hr.mtime, hr.mtimecmp, hr.stimecmp⟩, Or.inl rfl⟩
  | mip =>
      refine hframe (.of_mip rfl fun m hm => ?_)
      have hbits : ∀ n ∈ [31, 11, 7, 5], bit 0b11111111111111111111110111111101 n = true ∧
          bit 0b00000000000000000000001000000010 n = false := by decide
      obtain ⟨hkeep, hzero⟩ := hbits m hm
      have hresult : bit (op.masked (csrEntry n) x rd) m = false := by
        rw [ModifyCsrOp.masked, hmipEntry hw, bit_opAnd,
          show bit ((0b00000000000000000000001000000010 : Nat) : Int) m = false
          from hzero, Bool.and_false]
      rw [csrWriteHart, bit_opOr, bit_opAnd, hkeep, hresult, Bool.and_true, Bool.or_false]
  | sip =>
      obtain rfl := hsipEntry hw
      have hrd : rd = opAnd s.csrMip (s.csr cfg midelegCsr) := by
        rw [csrEntry_sip] at hread
        exact (EStateM.Result.ok.inj hread).1.symm
      have hbit {m : Nat} (hm : m < 32) := sip_bit op x s.csrMip (s.csr cfg midelegCsr) hm
      rw [hrd]
      refine ⟨⟨hr.flags, hr.mtime, hr.mtimecmp, hr.stimecmp⟩, Or.inr ?_⟩
      have h31 : bit (s.csr cfg midelegCsr) 31 = false := hp.mideleg.bit_eq_false (by decide)
      cases hpoll : bit s.csrMip 31 with
      | true =>
          refine Or.inl ?_
          rw [csrWriteHart, hbit (by decide), h31, hpoll]
          rfl
      | false =>
          have hkeep := hsip rfl hpoll
          refine (LevelFrame.of_mip rfl fun m hm => ?_).notStale hn
          have hm32 : m < 32 := by
            simp only [List.mem_cons, List.not_mem_nil, or_false] at hm
            omega
          rw [csrWriteHart, hbit hm32]
          have hflips : (bit (s.csr cfg midelegCsr) m && op.flips (bit x m) (bit s.csrMip m)) =
              false := by
            by_cases hm31 : m = 31
            · rw [hm31, h31, Bool.false_and]
            · have hmem : m ∈ [11, 7, 5] := (List.mem_cons.mp hm).resolve_left hm31
              by_contra hne
              exact hkeep m hmem (Bool.and_eq_true_iff.mp (Bool.eq_true_of_not_eq_false hne))
          rw [hflips, Bool.xor_false]
  | _ => exact hframe ⟨fun _ _ => rfl, rfl, ⟨rfl, rfl⟩, ⟨rfl, rfl⟩, ⟨rfl, rfl⟩⟩

theorem Effect.levels {label : Label} {d : Fetched} {rs1 rs2 : Int} {e : End} {s' : Hart}
    (h : Effect cfg label d rs1 rs2 s e s') (hs : Sound cfg s) (hp : PrivilegeOk cfg s)
    (hr : LevelRanges s) (hn : NotStale s) (hcontrol : ¬StaleControl cfg label d rs1 rs2 s)
    (hsip : ¬StaleSip cfg label d rs1 s) :
    LevelRanges s' ∧ (e.polls = true ∨ NotStale s') := by
  have hframe {s' : Hart} (h : LevelFrame s s') : LevelRanges s' ∧ (e.polls = true ∨ NotStale s') :=
    ⟨h.ranges hr, Or.inr (h.notStale hn)⟩
  have hloaded {s' : Hart} (h : LoadFrame s s') : LevelRanges s' ∧ NotStale s' := by
    rcases h.levels with h | ⟨hranges, hpoll⟩
    · exact ⟨h.ranges hr, h.notStale hn⟩
    · exact ⟨hranges hr, Or.inl hpoll⟩
  have hload {s' s'' : Hart} (h : LoadFrame s s') (h' : LevelFrame s' s'') :
      LevelRanges s'' ∧ (e.polls = true ∨ NotStale s'') := by
    obtain ⟨hr', hn'⟩ := hloaded h
    exact ⟨h'.ranges hr', Or.inr (h'.notStale hn')⟩
  have hsame {s s' : Hart} (hmip : s'.csrMip = s.csrMip) (hflags : s'.uartFlags = s.uartFlags)
      (hmtime : s'.csrMtime = s.csrMtime ∧ s'.csrMtimeh = s.csrMtimeh)
      (hmtimecmp : s'.csrMtimecmp = s.csrMtimecmp ∧ s'.csrMtimecmph = s.csrMtimecmph)
      (hstimecmp : s'.csrStimecmp = s.csrStimecmp ∧ s'.csrStimecmph = s.csrStimecmph) :
      LevelFrame s s' :=
    ⟨fun n _ => by rw [hmip], hflags, hmtime, hmtimecmp, hstimecmp⟩
  cases h with
  | compute => exact hframe (.refl s)
  | pass => exact hframe (.refl s)
  | jump => exact hframe (hsame rfl rfl ⟨rfl, rfl⟩ ⟨rfl, rfl⟩ ⟨rfl, rfl⟩)
  | load h => exact hload h (.refl _)
  | reserve h => exact hload h (hsame rfl rfl ⟨rfl, rfl⟩ ⟨rfl, rfl⟩ ⟨rfl, rfl⟩)
  | storeRam h =>
      refine hload h ?_
      unfold storedRam
      dsimp only
      split <;> exact hsame rfl rfl ⟨rfl, rfl⟩ ⟨rfl, rfl⟩ ⟨rfl, rfl⟩
  | storeSyscon h => exact hload h (.refl _)
  | storeMmio hop hsetup h ha hvalue hx hsyscon hwritten =>
      obtain ⟨hr₂, hn₂⟩ := hloaded (h.1.trans h.2)
      exact storeMmio_levels hop hsetup ha hsyscon hvalue hx hwritten hr₂ hn₂ hcontrol
  | sret =>
      refine hframe ⟨fun n hn => bit_opOr_fireFlag s.csrMip hn, rfl, ⟨rfl, rfl⟩, ⟨rfl, rfl⟩, ⟨rfl, rfl⟩⟩
  | mret =>
      refine hframe ⟨fun n hn => bit_opOr_fireFlag s.csrMip hn, rfl, ⟨rfl, rfl⟩, ⟨rfl, rfl⟩, ⟨rfl, rfl⟩⟩
  | sfence => exact hframe (hsame rfl rfl ⟨rfl, rfl⟩ ⟨rfl, rfl⟩ ⟨rfl, rfl⟩)
  | csrRead => exact hframe (.refl s)
  | csrWrite hop himm _ hread hwrites =>
      obtain ⟨n, hn'⟩ := Int.eq_ofNat_of_zero_le himm.1
      rw [hn'] at hread ⊢
      rw [Int.toNat_natCast] at hread ⊢
      refine csrWrite_levels hp hr hn hread fun hsip' hpoll i hi hflip => hsip ?_
      exact ⟨_, _, hop, by rw [hn', hsip'], hwrites, hpoll, i, hi, hflip⟩
  | mlogsys =>
      obtain ⟨imm, procs, heq, -⟩ := mlogsysHart_frame hs.incr rs1
      rw [heq]
      exact hframe (hsame rfl rfl ⟨rfl, rfl⟩ ⟨rfl, rfl⟩ ⟨rfl, rfl⟩)

/-! ## Runs -/

theorem updateUartPtr_within {uartShift : Int} (hshift : uartShift ∈ [0, 1, 2, 3]) (quiet : Bool)
    (ptr ptrs : Int) {uartFlags : Int} (h : Within 0xff uartFlags) :
    Within 0xff (updateUartPtr uartShift quiet ptr uartFlags ptrs).1 := by
  have hbits : ∀ u ∈ ([0, 1, 2, 3] : List Int), Within 0xff (opShl 1 u) := by decide
  unfold updateUartPtr
  dsimp only
  split_ifs
  · exact h
  · exact h
  · exact h.opOr (hbits uartShift hshift)

theorem updateUartFlags_within (uarts : Uarts) {uartFlags : Int} (h : Within 0xff uartFlags)
    (c : Controller) :
    Within 0xff (updateUartFlags uarts uartFlags c).1 := by
  have hfold (us : List Int) (hus : ∀ u ∈ us, u ∈ ([0, 1, 2, 3] : List Int)) (r : Int × Controller)
      (hr : Within 0xff r.1) : Within 0xff (us.foldl (updateUartFlagsStep uarts) r).1 := by
    induction us generalizing r with
    | nil => exact hr
    | cons u us ih =>
        have hu := hus u List.mem_cons_self
        refine ih (fun v hv => hus v (List.mem_cons_of_mem u hv)) _ ?_
        exact updateUartPtr_within hu _ _ _ (updateUartPtr_within hu _ _ _ hr)
  exact hfold [0, 1, 2, 3] (fun _ hu => hu) _ h

/-- No store and no CSR write of the step is stale. -/
def LevelsGuard (cfg : PageConfig) (m : Machine) (e : Event) : Prop :=
  StoresOk cfg m e ∧ (e = .step → ∀ d rs1 rs2 label, m.point = .execute d rs1 rs2 →
    labels (d.opId + 192) = some label →
      ¬StaleControl cfg label d rs1 rs2 m.hart ∧ ¬StaleSip cfg label d rs1 m.hart)

/-- The instruction of M-mode at the point is not a store that toggles a level, and its write of sip
inverts none. -/
def Machine.levelsKept (cfg : PageConfig) (m : Machine) : Bool :=
  match m.point with
  | .execute d rs1 rs2 => (labels (d.opId + 192)).all fun label =>
      (match memOp label with
        | some (.store op) => decide (¬m.hart.effectivePrivilegeMode < 0b11 ∧
            opMod (effectiveAddress rs1 d.imm) (opIdiv (8 * op.bytes) 8) = 0 ∧
            ∀ k < (4 : Nat), ¬(opAnd (effectiveAddress rs1 d.imm) 0xfffffffc =
                mmioStart + uartControlOffset + uartMmioSize * k ∧
              TogglesLevel m.hart.uartFlags k (bit (controlWord op (effectiveAddress rs1 d.imm) rs2) 4)))
        | _ => true) &&
      (match csrOperand d rs1 label with
        | some (op, x) => decide (¬(d.imm = sipCsr ∧ ∃ n ∈ ([11, 7, 5] : List Nat),
            bit (m.hart.csr cfg midelegCsr) n = true ∧ op.flips (bit x n) (bit m.hart.csrMip n) = true))
        | none => true)
  | _ => true

theorem levelsGuard_of_levelsKept {m : Machine} (e : Event) (hstores : m.storesMapped cfg = true)
    (h : m.levelsKept cfg = true) : LevelsGuard cfg m e := by
  refine ⟨storesOk_of_storesMapped e hstores, fun _ d rs1 rs2 label hpoint hlabel => ?_⟩
  rw [Machine.levelsKept, hpoint] at h
  dsimp only at h
  rw [hlabel] at h
  obtain ⟨hstore, hcsr⟩ := Bool.and_eq_true_iff.mp h
  constructor
  · rintro ⟨op, a, s₁, k, hk, hop, hx, haddress, -, htoggles⟩
    rw [hop] at hstore
    obtain ⟨hmode, halign, hkeeps⟩ := of_decide_eq_true hstore
    rw [setupLoadAndStoreValue_machine hmode halign] at hx
    obtain ⟨rfl, rfl⟩ := EStateM.Result.ok.inj hx
    exact hkeeps k hk ⟨haddress, htoggles⟩
  · rintro ⟨op, x, hop, himm, -, -, n, hn, hflips⟩
    rw [hop] at hcsr
    exact of_decide_eq_true hcsr ⟨himm, n, hn, hflips⟩

/-- `NotStale` between `poll_interrupts` and the end of an instruction that raises the poll flag. -/
def FreshAt : Point → Hart → Prop
  | .pollInterrupts, _ | .reset, _ | .lost, _ => True
  | .ending e, s => e.polls = true ∨ NotStale s
  | _, s => NotStale s

structure FreshMachine (cfg : PageConfig) (m : Machine) : Prop where
  sound : SoundMachine cfg m
  privilege : PrivilegeOk cfg m.hart
  ranges : LevelRanges m.hart
  fresh : FreshAt m.point m.hart

theorem FreshAt.of_notStale (p : Point) (h : NotStale s) : FreshAt p s := by
  cases p with
  | ending e => exact Or.inr h
  | pollInterrupts => trivial
  | reset => trivial
  | lost => trivial
  | _ => exact h

theorem FreshAt.mono {p : Point} {s s' : Hart} (h : FreshAt p s) (hs : NotStale s → NotStale s') :
    FreshAt p s' := by
  cases p with
  | ending e => exact h.imp_right hs
  | pollInterrupts => trivial
  | reset => trivial
  | lost => trivial
  | _ => exact hs h

theorem trapCheckMxdeleg_levels (cfg : PageConfig) (mxdeleg : Int) (t : Trap) (s : Hart) :
    LevelFrame s (trapCheckMxdeleg cfg mxdeleg t s).2 := by
  obtain ⟨c, mode, mstatus, e, -, heq⟩ := trapCheckMxdeleg_eq cfg mxdeleg t s
  rw [heq]
  exact ⟨fun _ _ => rfl, rfl, ⟨rfl, rfl⟩, ⟨rfl, rfl⟩, ⟨rfl, rfl⟩⟩

theorem End.raise_bit {e : End} (h : e.polls = false) (mip : Int) {n : Nat} (hn : n ∈ [31, 11, 7, 5]) :
    bit (e.raise mip) n = bit mip n := by
  cases e with
  | endInstructionWithRdAndPollInterrupts => cases h
  | endInstructionWithRdAndFireInterrupts => exact bit_opOr_fireFlag mip hn
  | _ => rfl

theorem retiredHart_levels (cfg : PageConfig) (s : Hart) (e : End) (hr : LevelRanges s)
    (h : e.polls = true ∨ NotStale s) :
    LevelRanges (retiredHart cfg s e) ∧ NotStale (retiredHart cfg s e) := by
  have hmip := retiredHart_csrMip cfg s e
  have hrest : (retiredHart cfg s e).uartFlags = s.uartFlags ∧
      ((retiredHart cfg s e).csrMtime = s.csrMtime ∧ (retiredHart cfg s e).csrMtimeh = s.csrMtimeh) ∧
      ((retiredHart cfg s e).csrMtimecmp = s.csrMtimecmp ∧
        (retiredHart cfg s e).csrMtimecmph = s.csrMtimecmph) ∧
      (retiredHart cfg s e).csrStimecmp = s.csrStimecmp ∧
      (retiredHart cfg s e).csrStimecmph = s.csrStimecmph := by
    unfold retiredHart incrementInstret writeRd
    dsimp only
    split <;> split <;> exact ⟨rfl, ⟨rfl, rfl⟩, ⟨rfl, rfl⟩, ⟨rfl, rfl⟩⟩
  obtain ⟨hflags, hmtime, hmtimecmp, hstimecmp⟩ := hrest
  have hranges : LevelRanges (retiredHart cfg s e) :=
    ⟨hflags ▸ hr.flags, hmtime.1 ▸ hr.mtime, hmtimecmp.1 ▸ hr.mtimecmp, hstimecmp.1 ▸ hr.stimecmp⟩
  refine ⟨hranges, ?_⟩
  cases hpolls : e.polls with
  | true =>
      cases e with
      | endInstructionWithRdAndPollInterrupts =>
          refine Or.inl ?_
          rw [hmip, End.raise, bit_opOr, bit_opOr, show bit 0b10000000000000000000000000000000 31 =
            true by decide, Bool.or_true, Bool.true_or]
      | _ => cases hpolls
  | false =>
      have hn := h.resolve_left (by rw [hpolls]; decide)
      refine LevelFrame.notStale ⟨fun n hn => ?_, hflags, hmtime, hmtimecmp, hstimecmp⟩ hn
      rw [hmip, End.raise_bit hpolls _ hn]

theorem finish_levels (cfg : PageConfig) (s : Hart) (e : End) (hr : LevelRanges s)
    (h : e.polls = true ∨ NotStale s) :
    LevelRanges (finish cfg s e).2 ∧ FreshAt (finish cfg s e).1 (finish cfg s e).2 := by
  cases hretires : e.retires with
  | false =>
      cases e with
      | reset => exact ⟨hr, trivial⟩
      | lost => exact ⟨hr, trivial⟩
      | _ => cases hretires
  | true =>
      obtain ⟨hr', hn'⟩ := retiredHart_levels cfg s e hr h
      rw [finish_eq cfg s hretires]
      have hsame : LevelFrame (retiredHart cfg s e) (endInstructionTrap (retiredHart cfg s e)).2 := by
        rw [endInstructionTrap_snd]
        exact ⟨fun _ _ => rfl, rfl, ⟨rfl, rfl⟩, ⟨rfl, rfl⟩, ⟨rfl, rfl⟩⟩
      exact ⟨hsame.ranges hr', .of_notStale _ (hsame.notStale hn')⟩

theorem Fetches.levels {d : Fetched} {s' : Hart} (h : Fetches cfg s d s') (hr : LevelRanges s)
    (hn : NotStale s) :
    LevelRanges s' ∧ NotStale s' := by
  have hstart : LevelFrame s (fetchHart s) := ⟨fun _ _ => rfl, rfl, ⟨rfl, rfl⟩, ⟨rfl, rfl⟩, ⟨rfl, rfl⟩⟩
  have hload {a : Int} {s₁ : Hart} (ha : fetchAddress cfg (fetchHart s) = .ok a s₁) :
      LevelRanges s₁ ∧ NotStale s₁ := by
    rcases (wp_ok (fetchAddress_frame cfg (fetchHart s)) ha).1.levels with h | ⟨hranges, hpoll⟩
    · exact ⟨h.ranges (hstart.ranges hr), h.notStale (hstart.notStale hn)⟩
    · exact ⟨hranges (hstart.ranges hr), Or.inl hpoll⟩
  have hsame {s₁ s₂ : Hart} (h₁ : LevelRanges s₁ ∧ NotStale s₁) (h : LevelFrame s₁ s₂) :
      LevelRanges s₂ ∧ NotStale s₂ := ⟨h.ranges h₁.1, h.notStale h₁.2⟩
  cases h with
  | cursor => exact hsame ⟨hr, hn⟩ ⟨fun _ _ => rfl, rfl, ⟨rfl, rfl⟩, ⟨rfl, rfl⟩, ⟨rfl, rfl⟩⟩
  | icache _ ha => exact hsame (hload ha) ⟨fun _ _ => rfl, rfl, ⟨rfl, rfl⟩, ⟨rfl, rfl⟩, ⟨rfl, rfl⟩⟩
  | slow _ ha => exact hsame (hload ha) ⟨fun _ _ => rfl, rfl, ⟨rfl, rfl⟩, ⟨rfl, rfl⟩, ⟨rfl, rfl⟩⟩

theorem FreshMachine.step {m : Machine} (h : FreshMachine cfg m) (hg : LevelsGuard cfg m .step) :
    FreshMachine cfg (m.step cfg) := by
  obtain ⟨hs, hp, hr, hfresh⟩ := h
  obtain ⟨hstores, hlevels⟩ := hg
  suffices hstep : LevelRanges (stepPoint cfg m.point m.hart).2 ∧
      FreshAt (stepPoint cfg m.point m.hart).1 (stepPoint cfg m.point m.hart).2 from
    ⟨hs.step hstores, hp.step (hs.systemStep .step hstores), hstep.1, hstep.2⟩
  have hload {s s' : Hart} (h : LoadFrame s s') (hr : LevelRanges s) (hn : NotStale s) :
      LevelRanges s' ∧ NotStale s' := by
    rcases h.levels with h | ⟨hranges, hpoll⟩
    · exact ⟨h.ranges hr, h.notStale hn⟩
    · exact ⟨hranges hr, Or.inl hpoll⟩
  cases hpoint : m.point with
  | pollInterrupts =>
      exact ⟨⟨hr.flags, hr.mtime, hr.mtimecmp, hr.stimecmp⟩, Or.inr (pollInterrupts_levels hr)⟩
  | fireInterrupts =>
      rw [hpoint] at hfresh
      have hlowered : LevelFrame m.hart (loweredHart m.hart) := by
        refine .of_mip rfl fun n hn => ?_
        have hkeep : ∀ n ∈ [31, 11, 7, 5], bit 0b10111111111111111111111111111111 n = true := by decide
        rw [loweredHart, bit_opAnd, hkeep n hn, Bool.and_true]
      rcases fireInterrupts_cases cfg m.hart with heq | ⟨i, heq⟩
      · rw [stepPoint, heq]
        exact ⟨hlowered.ranges hr, hlowered.notStale hfresh⟩
      · have htrap := trapCheckMxdeleg_levels cfg (m.hart.csr cfg midelegCsr)
          (interruptTrap i) (loweredHart m.hart)
        rw [stepPoint, heq]
        exact ⟨htrap.ranges (hlowered.ranges hr),
          .of_notStale _ (htrap.notStale (hlowered.notStale hfresh))⟩
  | main =>
      rw [hpoint] at hfresh
      have hfetch := fetch_correct cfg m.hart
      rw [stepPoint]
      cases hx : fetch cfg m.hart with
      | ok d s' =>
          obtain ⟨d', rfl, hd⟩ := wp_ok hfetch hx hs.hart
          obtain ⟨hr', hn'⟩ := hd.levels hr hfresh
          exact ⟨hr', .of_notStale _ hn'⟩
      | error t s' =>
          obtain ⟨hframe, -⟩ := wp_error hfetch hx
          have hstart : LevelFrame m.hart (fetchHart m.hart) :=
            ⟨fun _ _ => rfl, rfl, ⟨rfl, rfl⟩, ⟨rfl, rfl⟩, ⟨rfl, rfl⟩⟩
          obtain ⟨hr', hn'⟩ := hload hframe (hstart.ranges hr) (hstart.notStale hfresh)
          exact ⟨hr', hn'⟩
  | execute d rs1 rs2 =>
      rw [hpoint] at hfresh
      rw [stepPoint]
      cases hx : execute cfg d rs1 rs2 m.hart with
      | ok e s' =>
          obtain ⟨label, hlabel, heffect⟩ := execute_effect (hs.ready hpoint hstores) hx
          obtain ⟨hcontrol, hsip⟩ := hlevels rfl d rs1 rs2 label hpoint hlabel
          exact heffect.levels hs.hart hp hr hfresh hcontrol hsip
      | error t s' =>
          obtain ⟨label, -, hframe, -⟩ := execute_raises hx
          exact hload hframe hr hfresh
  | ending e =>
      rw [hpoint] at hfresh
      exact finish_levels cfg m.hart e hr hfresh
  | trap t =>
      rw [hpoint] at hfresh
      have htrap := trapCheckMxdeleg_levels cfg (m.hart.csr cfg medelegCsr) t m.hart
      exact ⟨htrap.ranges hr, .of_notStale _ (htrap.notStale hfresh)⟩
  | reset => exact ⟨hr, trivial⟩
  | lost => exact ⟨hr, trivial⟩

theorem FreshMachine.reset {m : Machine} (h : SoundMachine cfg (m.reset cfg)) :
    FreshMachine cfg (m.reset cfg) := by
  have hzero : IsWord 0 := ⟨by decide, by decide⟩
  exact ⟨h, .reset cfg m.hart _, ⟨updateUartFlags_within _ (by decide) _, hzero, hzero, hzero⟩, trivial⟩

theorem FreshMachine.apply {m : Machine} (h : FreshMachine cfg m) (e : Event)
    (hg : LevelsGuard cfg m e) :
    FreshMachine cfg (m.apply cfg e) := by
  have hs := h.sound.apply e hg.1
  have hp := h.privilege.step (h.sound.systemStep e hg.1)
  cases e with
  | step => exact h.step hg
  | reset => exact .reset hs
  | device uarts =>
      have hsame : LevelFrame m.hart { m.hart with uarts := uarts } :=
        ⟨fun _ _ => rfl, rfl, ⟨rfl, rfl⟩, ⟨rfl, rfl⟩, ⟨rfl, rfl⟩⟩
      exact ⟨hs, hp, hsame.ranges h.ranges, h.fresh.mono hsame.notStale⟩
  | handOff =>
      by_cases hrun : m.point.isRunning
      · have hsame : LevelFrame m.hart (incrementMcycle cfg m.hart) := by
          unfold incrementMcycle
          dsimp only
          split <;> exact ⟨fun _ _ => rfl, rfl, ⟨rfl, rfl⟩, ⟨rfl, rfl⟩, ⟨rfl, rfl⟩⟩
        rw [Machine.apply, if_pos hrun] at hs hp ⊢
        exact ⟨hs, hp, hsame.ranges h.ranges, h.fresh.mono hsame.notStale⟩
      · rw [Machine.apply, if_neg hrun]
        exact h
  | tick delta =>
      by_cases hrun : m.point.isRunning
      · rw [Machine.apply, if_pos hrun] at hs hp ⊢
        refine ⟨hs, hp, ⟨updateUartFlags_within _ h.ranges.flags _, ?_,
          h.ranges.mtimecmp, h.ranges.stimecmp⟩,
          .of_notStale _ (Or.inl ?_)⟩
        · have hnonneg : (0 : ℚ) ≤ (m.hart.csrMtime : ℚ) + (delta : ℚ) :=
            add_nonneg (by exact_mod_cast h.ranges.mtime.1) delta.coe_nonneg
          have hfloor : 0 ≤ ⌊number ((m.hart.csrMtime : ℚ) + (delta : ℚ))⌋ :=
            Int.floor_nonneg.mpr (number_nonneg hnonneg)
          change IsWord (opMod ⌊number ((m.hart.csrMtime : ℚ) + (delta : ℚ))⌋ 0x100000000)
          rw [opMod_eq hfloor (by decide)]
          exact ⟨Int.emod_nonneg _ (by decide), Int.emod_lt_of_pos _ (by decide)⟩
        · change bit (opOr m.hart.csrMip 0b11000000000000000000000000000000) 31 = true
          rw [bit_opOr, show bit 0b11000000000000000000000000000000 31 = true by decide, Bool.or_true]
      · rw [Machine.apply, if_neg hrun]
        exact h

/-- In every run without stale writes, MEIP, MTIP and STIP are fresh. -/
theorem Reaches.fresh {m : Machine} (h : Reaches cfg (LevelsGuard cfg) m) : FreshMachine cfg m := by
  refine Reachable.invariant (I := FreshMachine cfg) (fun m hm => ?_) (fun m e hm hg => hm.apply e hg) h
  obtain ⟨uarts, rfl⟩ := hm
  exact .reset (soundMachine_start cfg uarts)

end Mlogv32.Cpu
