import Mlogv32.Cpu.Handlers
import Mlogv32.Logic.Wp
import Mlogv32.Mlog.Bits

/-!
# Effects of physical loads and of translation

A load changes at most the state of the UARTs and the poll flag of mip, and returns a word. Its only
exception is the one it was called with.
-/

namespace Mlogv32.Cpu
open Mlog Logic

/-! ## Frames -/

/-- The interrupt flags of the UARTs are as before, or some were cleared and the poll flag of mip is
raised. -/
def FlagsFrame (uartFlags csrMip uartFlags' csrMip' : Int) : Prop :=
  (uartFlags' = uartFlags ∧ csrMip' = csrMip) ∨
    ((∀ mask, Within mask uartFlags → Within mask uartFlags') ∧
      csrMip' = opOr csrMip 0b10000000000000000000000000000000)

/-- The state that a load can change. -/
def LoadFrame (s s' : Hart) : Prop :=
  ∃ uartFlags csrMip uarts, s' = { s with uartFlags := uartFlags, csrMip := csrMip, uarts := uarts } ∧
    FlagsFrame s.uartFlags s.csrMip uartFlags csrMip

theorem LoadFrame.refl (s : Hart) : LoadFrame s s :=
  ⟨s.uartFlags, s.csrMip, s.uarts, rfl, Or.inl ⟨rfl, rfl⟩⟩

theorem LoadFrame.trans {s s' s'' : Hart} (h : LoadFrame s s') (h' : LoadFrame s' s'') :
    LoadFrame s s'' := by
  obtain ⟨f, m, u, rfl, hm⟩ := h
  obtain ⟨f', m', u', rfl, hm'⟩ := h'
  refine ⟨f', m', u', rfl, ?_⟩
  dsimp only at hm'
  rcases hm with ⟨rfl, rfl⟩ | ⟨hf, rfl⟩ <;> rcases hm' with ⟨rfl, rfl⟩ | ⟨hf', rfl⟩
  · exact Or.inl ⟨rfl, rfl⟩
  · exact Or.inr ⟨hf', rfl⟩
  · exact Or.inr ⟨hf, rfl⟩
  · exact Or.inr ⟨fun mask h => hf' mask (hf mask h), opOr_idem _ _⟩

theorem LoadFrame.procs {s s' : Hart} (h : LoadFrame s s') : s'.procs = s.procs := by
  obtain ⟨_, _, _, rfl, _⟩ := h
  rfl

theorem LoadFrame.registers {s s' : Hart} (h : LoadFrame s s') : s'.registers = s.registers := by
  obtain ⟨_, _, _, rfl, -⟩ := h
  rfl

/-! ## Loads -/

theorem loadUartStatus_frame (cfg : PageConfig) (u : UartAccess) (s : Hart) :
    wp (loadUartStatus cfg u) (fun _ s' => LoadFrame s s') (fun _ _ => False) s := by
  simp only [loadUartStatus, wp_bind, wp_get, wp_ite, wp_set, wp_pure]
  exact ⟨fun _ => ⟨_, _, _, rfl, Or.inr ⟨fun _ h => h.opAnd _, rfl⟩⟩, fun _ => .refl s⟩

theorem loadUartRx_frame (cfg : PageConfig) (u : UartAccess) (mcause : Int) (s : Hart) :
    wp (loadUartRx cfg u mcause) (fun _ s' => LoadFrame s s') (fun _ _ => False) s := by
  simp only [loadUartRx, wp_bind, wp_get, wp_ite, wp_set, wp_pure]
  exact ⟨fun _ => .refl s, fun _ => ⟨fun _ => .refl s, fun _ => ⟨_, _, _, rfl, Or.inl ⟨rfl, rfl⟩⟩⟩⟩

theorem loadMmioWord_frame (cfg : PageConfig) (address : Int) (trap : Trap) (s : Hart) :
    wp (loadMmioWord cfg address trap) (fun _ s' => LoadFrame s s')
      (fun t s' => t = trap ∧ s' = s) s := by
  simp only [loadMmioWord, wp_bind, wp_get, wp_ite, wp_throw, wp_pure]
  refine ⟨fun _ => .refl s, fun _ =>
      ⟨fun _ => ⟨trivial, trivial⟩, fun _ => ⟨fun _ => ⟨fun _ => ?_, fun _ =>
    ⟨fun _ => ?_, fun _ => .refl s⟩⟩, fun _ => ⟨fun _ => ⟨trivial, trivial⟩, fun _ => .refl s⟩⟩⟩⟩
  · exact wp_mono (loadUartStatus_frame cfg _ s) (fun _ _ h => h) (fun _ _ h => h.elim)
  · exact wp_mono (loadUartRx_frame cfg _ _ s) (fun _ _ h => h) (fun _ _ h => h.elim)

theorem loadRamOrMmioWord_frame (cfg : PageConfig) (address : Int) (trap : Trap) (s : Hart) :
    wp (loadRamOrMmioWord cfg address trap) (fun _ s' => LoadFrame s s')
      (fun t s' => t = trap ∧ s' = s) s := by
  simp only [loadRamOrMmioWord, wp_bind, wp_get, wp_ite, wp_throw, wp_pure]
  exact ⟨fun _ => loadMmioWord_frame cfg address trap s,
    fun _ => ⟨fun _ => ⟨trivial, trivial⟩, fun _ => ⟨fun _ => ⟨trivial, trivial⟩, fun _ => .refl s⟩⟩⟩

theorem loadWord_frame (cfg : PageConfig) (address : Int) (trap : Trap) (s : Hart) :
    wp (loadWord cfg address trap) (fun _ s' => LoadFrame s s')
      (fun t s' => t = trap ∧ s' = s) s := by
  simp only [loadWord, wp_ite, wp_pure]
  exact ⟨fun _ => .refl s, fun _ => loadRamOrMmioWord_frame cfg address trap s⟩

/-! ## Words that a load returns -/

theorem romChar_bound (cfg : PageConfig) (t : Tile) (i : Int) :
    0 ≤ romChar cfg t i ∧ romChar cfg t i ≤ romByteOffset + 255 := by
  unfold romChar romByteOffset
  cases cfg.rom t i with
  | none => decide
  | some b =>
      have := b.isLt
      dsimp only
      omega

theorem loadRomWordUnchecked_word (cfg : PageConfig) (address : Int) :
    0 ≤ loadRomWordUnchecked cfg address ∧ loadRomWordUnchecked cfg address < 2 ^ 32 := by
  simp only [loadRomWordUnchecked]
  generalize cfg.tile _ = t
  generalize opMod _ _ = i
  have h0 := romChar_bound cfg t i
  have h1 := romChar_bound cfg t (i + 1)
  have h2 := romChar_bound cfg t (i + 2)
  have h3 := romChar_bound cfg t (i + 3)
  unfold romByteOffset at *
  have e1 := opShl_eq (romChar cfg t (i + 1)) 8 (by decide) (by omega) (by omega)
  have e2 := opShl_eq (romChar cfg t (i + 2)) 16 (by decide) (by omega) (by omega)
  have e3 := opShl_eq (romChar cfg t (i + 3)) 24 (by decide) (by omega) (by omega)
  push_cast at e1 e2 e3
  rw [e1, e2, e3]
  omega

theorem swapEndianness_word (value : Int) :
    0 ≤ swapEndianness value ∧ swapEndianness value < 2 ^ 32 := by
  simp only [swapEndianness]
  have h0 := opAnd_lt (a := opShr value 24) (b := 0xff) (k := 32) (by decide) (by decide) (by decide)
  have h1 := opAnd_lt (a := opShl value 8) (b := 0xff0000) (k := 32) (by decide) (by decide) (by decide)
  have h2 := opAnd_lt (a := opShr value 8) (b := 0xff00) (k := 32) (by decide) (by decide) (by decide)
  have h3 :=
    opAnd_lt (a := opShl value 24) (b := 0xff000000) (k := 32) (by decide) (by decide) (by decide)
  have h4 := opOr_lt (by decide) h0.1 h0.2 h1.1 h1.2
  have h5 := opOr_lt (by decide) h4.1 h4.2 h2.1 h2.2
  exact opOr_lt (by decide) h5.1 h5.2 h3.1 h3.2

theorem ite_opOr_word {c : Prop} [Decidable c] {result b : Int} (h : 0 ≤ result ∧ result < 2 ^ 32)
    (hb : 0 ≤ b ∧ b < 2 ^ 32) :
    0 ≤ (if c then result else opOr result b) ∧ (if c then result else opOr result b) < 2 ^ 32 := by
  split
  · exact h
  · exact opOr_lt (by decide) h.1 h.2 hb.1 hb.2

theorem loadUartStatus_word (cfg : PageConfig) (u : UartAccess) (s : Hart) :
    wp (loadUartStatus cfg u) (fun w _ => 0 ≤ w ∧ w < 2 ^ 32) (fun _ _ => False) s := by
  simp only [loadUartStatus, wp_bind, wp_get, wp_ite, wp_set, wp_pure]
  have h := opAnd_lt (a := opShr s.uartFlags u.uartShift) (b := 0b10000) (k := 32)
    (by decide) (by decide) (by decide)
  have h1 := ite_opOr_word (c := u.txRead ≠ u.txWrite) h (b := 0b00100) (by decide)
  have h2 := ite_opOr_word (c := u.txRead ≠ u.nextTxWrite) h1 (b := 0b01000) (by decide)
  have h3 := ite_opOr_word (c := u.rxRead = u.rxWrite) h2 (b := 0b00001) (by decide)
  have h4 := ite_opOr_word (c := u.rxRead ≠ opMod (u.rxWrite + 1) cfg.uartFifoModulo) h3
    (b := 0b00010) (by decide)
  exact ⟨fun _ => h4, fun _ => h4⟩

theorem loadUartRx_word (cfg : PageConfig) (u : UartAccess) (mcause : Int) (s : Hart) :
    wp (loadUartRx cfg u mcause) (fun w _ => 0 ≤ w ∧ w < 2 ^ 32) (fun _ _ => False) s := by
  simp only [loadUartRx, wp_bind, wp_get, wp_ite, wp_set, wp_pure]
  exact ⟨fun _ => by decide, fun _ => ⟨fun _ => by decide, fun _ =>
    opAnd_lt (by decide) (by decide) (by decide)⟩⟩

/-- A load that is not made in M-mode returns a word. The timers may be wider, but the load of a
timer is an access fault. -/
theorem loadWord_word (cfg : PageConfig) (address : Int) (trap : Trap) {s : Hart}
    (hs : s.effectivePrivilegeMode < 0b11) :
    wp (loadWord cfg address trap) (fun w _ => 0 ≤ w ∧ w < 2 ^ 32) (fun _ _ => True) s := by
  simp only [loadWord, loadRamOrMmioWord, loadMmioWord, wp_bind, wp_get, wp_ite, wp_throw, wp_pure,
    loadRamWordUnchecked, hs, not_true_eq_false, false_imp_iff, imp_true_iff, and_true, true_and]
  refine ⟨fun _ => loadRomWordUnchecked_word cfg address, fun _ => ⟨fun _ => ⟨fun _ => by decide,
    fun _ _ _ => ⟨fun _ => ?_, fun _ => ⟨fun _ => ?_, fun _ => by decide⟩⟩⟩, fun _ _ _ => ?_⟩⟩
  · exact wp_mono (loadUartStatus_word cfg _ s) (fun _ _ h => h) (fun _ _ _ => trivial)
  · exact wp_mono (loadUartRx_word cfg _ _ s) (fun _ _ h => h) (fun _ _ _ => trivial)
  · exact swapEndianness_word _

/-! ## Translation -/

/-- A translated address: a word, or the virtual address in Bare mode, with the offset in the page
of the virtual address. -/
def Translated (trap : Trap) (address : Int) : Prop :=
  ((0 ≤ address ∧ address < 2 ^ 32) ∨ address = trap.mtval) ∧ address % 4096 = trap.mtval % 4096

theorem translated_opOr (trap : Trap) (result : Int) (k : Nat) (hk : 12 ≤ k ∧ k ≤ 32) :
    Translated trap (opOr (opAnd trap.mtval (2 ^ k - 1))
      (opAnd result ((2 ^ (32 - k) - 1) * 2 ^ k))) := by
  have hpow : (2 : Int) ^ (32 - k) * 2 ^ k = 2 ^ 32 := by rw [← pow_add, Nat.sub_add_cancel hk.2]
  have hpos : (0 : Int) < 2 ^ k := by positivity
  have hmod := Int.emod_lt_of_pos trap.mtval hpos
  have hmod' := Int.emod_nonneg trap.mtval hpos.ne'
  have hpage : result / 2 ^ k % 2 ^ (32 - k) * 2 ^ k + 2 ^ k ≤ 2 ^ 32 := by
    rw [← hpow, ← add_one_mul]
    exact mul_le_mul_of_nonneg_right (Int.emod_lt_of_pos _ (by positivity)) hpos.le
  have hpage' : 0 ≤ result / 2 ^ k % 2 ^ (32 - k) * 2 ^ k :=
    mul_nonneg (Int.emod_nonneg _ (by positivity)) hpos.le
  rw [opAnd_low _ k (by omega), opAnd_field _ k (32 - k) (by omega),
    opOr_mul_add _ k rfl (by omega) hmod' hmod (by omega) (by omega)]
  refine ⟨Or.inl ⟨by omega, by omega⟩, ?_⟩
  rw [show (4096 : Int) = 2 ^ 12 by norm_num, Int.add_emod, Int.emod_emod_of_dvd _ (pow_dvd_pow 2 hk.1),
    Int.emod_eq_zero_of_dvd (Dvd.dvd.mul_left (pow_dvd_pow 2 hk.1) _), add_zero, Int.emod_emod]

theorem translateLeaf_frame (pte nonlocal2 : Int) (trap : Trap) (s : Hart) :
    wp (translateLeaf pte nonlocal2 trap) (fun a s' => s' = s ∧ Translated trap a)
      (fun t s' => (t = trap ∨ t = pageFault trap) ∧ s' = s) s := by
  simp only [translateLeaf, wp_bind, wp_get, wp_ite, wp_throw, wp_pure, or_true, true_or, true_and,
    implies_true]
  exact fun _ _ _ _ _ => ⟨fun _ => translated_opOr trap _ 22 (by decide),
    fun _ => translated_opOr trap _ 12 (by decide)⟩

section Relation

/-! What relates the states before and after every load of a PTE relates those before and after a
translation. -/

variable {R : Hart → Hart → Prop} {cfg : PageConfig} {trap : Trap} (hrefl : ∀ s, R s s)
  (htrans : ∀ {s s' s''}, R s s' → R s' s'' → R s s'')
  (hload : ∀ a s, wp (loadWord cfg a trap) (fun _ s' => R s s') (fun t s' => t = trap ∧ s' = s) s)

include hrefl htrans hload

theorem translateLevel_rel {next : Int → Op Int}
    (hnext : ∀ a s, wp (next a) (fun a s' => R s s' ∧ Translated trap a)
      (fun t s' => (t = trap ∨ t = pageFault trap) ∧ R s s') s) (i : Nat) (a : Int) (s : Hart) :
    wp (translateLevel cfg trap i a next) (fun a s' => R s s' ∧ Translated trap a)
      (fun t s' => (t = trap ∨ t = pageFault trap) ∧ R s s') s := by
  simp only [translateLevel, wp_bind, wp_ite, wp_throw]
  refine wp_mono (hload _ s) (fun pte s' h => ?_) (fun t s' h => ?_)
  · refine ⟨fun _ => ⟨Or.inr trivial, h⟩, fun _ => ⟨fun _ => ?_, fun _ => ?_⟩⟩
    · exact wp_mono (translateLeaf_frame pte _ trap s') (fun _ s'' h' => ⟨h'.1 ▸ h, h'.2⟩)
        (fun t s'' h' => ⟨h'.1, h'.2 ▸ h⟩)
    · exact wp_mono (hnext _ s') (fun _ s'' h' => ⟨htrans h h'.1, h'.2⟩)
        (fun t s'' h' => ⟨h'.1, htrans h h'.2⟩)
  · exact ⟨Or.inl h.1, h.2 ▸ hrefl s⟩

theorem translateStep2_rel (i : Nat) (a : Int) (s : Hart) :
    wp (translateStep2 cfg trap i a) (fun a s' => R s s' ∧ Translated trap a)
      (fun t s' => (t = trap ∨ t = pageFault trap) ∧ R s s') s := by
  induction i generalizing a s with
  | zero => exact translateLevel_rel hrefl htrans hload (fun _ s =>
      wp_throw.mpr ⟨Or.inr rfl, hrefl s⟩) 0 a s
  | succ i ih => exact translateLevel_rel hrefl htrans hload (fun a s => ih a s) (i + 1) a s

theorem translateVirtualAddress_rel (s : Hart) :
    wp (translateVirtualAddress cfg trap) (fun a s' => R s s' ∧ Translated trap a)
      (fun t s' => (t = trap ∨ t = pageFault trap) ∧ R s s') s := by
  simp only [translateVirtualAddress, wp_bind, wp_get, wp_ite, wp_pure]
  exact ⟨fun _ => ⟨hrefl s, Or.inr rfl, rfl⟩, fun _ => translateStep2_rel hrefl htrans hload 1 _ s⟩

end Relation

theorem translateVirtualAddress_frame (cfg : PageConfig) (trap : Trap) (s : Hart) :
    wp (translateVirtualAddress cfg trap) (fun a s' => LoadFrame s s' ∧ Translated trap a)
      (fun t s' => (t = trap ∨ t = pageFault trap) ∧ LoadFrame s s') s :=
  translateVirtualAddress_rel .refl .trans (fun a s => loadWord_frame cfg a trap s) s

end Mlogv32.Cpu
