import Mlogv32.Cpu.Machine
import Mlogv32.Cpu.Lemmas.Load

/-!
# Stores and the memory map

Which physical addresses a store may access, and what the checks of `store_value` make of it.
-/

namespace Mlogv32.Cpu
open Mlog Logic

/-! ## The memory map -/

/-- The physical addresses that a store may access: RAM, syscon, the UART registers and, for M-mode,
the machine timers. -/
def Mapped (cfg : PageConfig) (s : Hart) (address : Int) : Prop :=
  (ramStart ≤ address ∧ address < cfg.ramEnd) ∨ address = syscon ∨
  (mmioStart + 0x10 ≤ address ∧ address < mmioStart + 0x50) ∨
  (mmioStart ≤ address ∧ address < mmioStart + 0x10 ∧ 0b11 ≤ s.effectivePrivilegeMode)

instance (cfg : PageConfig) (s : Hart) (address : Int) : Decidable (Mapped cfg s address) :=
  inferInstanceAs (Decidable (_ ∨ _))

/-- The width of the store at a label, in bits. -/
def storeLength : Label → Option Int
  | .SB => some 8
  | .SH => some 16
  | .SW => some 32
  | _ => none

/-! ## Page walks of a store -/

theorem opAnd_opNot_ne {a b : Int} (h : opAnd a b ≠ 0) : opAnd a (opNot (opAnd a b)) ≠ a := by
  intro heq
  apply h
  have hz : opAnd (opAnd a (opNot (opAnd a b))) b = 0 := by
    simp only [opAnd, opNot, long, BitVec.ofInt_toInt]
    have : BitVec.ofInt 64 a &&& ~~~(BitVec.ofInt 64 a &&& BitVec.ofInt 64 b) &&&
        BitVec.ofInt 64 b = 0#64 := by
      apply BitVec.eq_of_getLsbD_eq
      intro i hi
      simp only [BitVec.getLsbD_and, BitVec.getLsbD_not, hi, decide_true,
        Bool.true_and, BitVec.getLsbD_zero]
      cases (BitVec.ofInt 64 a).getLsbD i <;> cases (BitVec.ofInt 64 b).getLsbD i <;> rfl
    rw [this]
    rfl
  rw [heq] at hz
  exact hz

/-- A page walk of a store only clears interrupt flags of the UARTs, when it reads a status register
as a PTE. -/
def StoreFrame (s s' : Hart) : Prop :=
  s' = s ∨ ∃ mask csrMip, s' = { s with uartFlags := opAnd s.uartFlags mask, csrMip := csrMip } ∧
    opAnd s.uartFlags mask ≠ s.uartFlags

theorem StoreFrame.trans {s s' s'' : Hart} (h : StoreFrame s s') (h' : StoreFrame s' s'') :
    StoreFrame s s'' := by
  rcases h with rfl | ⟨m, p, rfl, hm⟩
  · exact h'
  · rcases h' with rfl | ⟨m', p', rfl, -⟩
    · exact Or.inr ⟨m, p, rfl, hm⟩
    · refine Or.inr ⟨opAnd m m', p', ?_, ?_⟩
      · dsimp only
        rw [opAnd_assoc]
      · rw [← opAnd_assoc]
        exact opAnd_opAnd_ne hm m'

theorem StoreFrame.eq_of_uartFlags {s s' : Hart} (h : StoreFrame s s')
    (hflags : s'.uartFlags = s.uartFlags) : s' = s := by
  rcases h with rfl | ⟨m, p, rfl, hm⟩
  · rfl
  · exact absurd hflags hm

theorem loadWord_storeFrame (cfg : PageConfig) (address mtval : Int) (s : Hart) :
    wp (loadWord cfg address { mcause := 7, mtval := mtval }) (fun _ s' => StoreFrame s s')
      (fun t s' => t = { mcause := 7, mtval := mtval } ∧ s' = s) s := by
  have hrefl : StoreFrame s s := Or.inl rfl
  simp only [loadWord, loadRamOrMmioWord, loadMmioWord, loadUartStatus, loadUartRx, wp_bind, wp_get,
    wp_set, wp_ite, wp_throw, wp_pure, hrefl, not_true_eq_false, false_imp_iff, implies_true, and_true,
    true_and]
  exact fun _ _ _ _ _ _ hmask => Or.inr ⟨_, _, rfl, opAnd_opNot_ne hmask⟩

/-- The address of a store is a word. -/
theorem setupLoadAndStoreValue_storeFrame (cfg : PageConfig) (rs1 imm length : Int) (s : Hart) :
    wp (setupLoadAndStoreValue cfg 6 rs1 imm length)
      (fun address s' => StoreFrame s s' ∧ address < 2 ^ 32) (fun _ _ => True) s := by
  have hva : opMod (rs1 + imm) 0x100000000 < 2 ^ 32 := by
    rw [opMod, if_neg (by decide)]
    exact Int.tmod_lt_of_pos _ (by decide)
  simp only [setupLoadAndStoreValue, wp_bind, wp_get, wp_ite, wp_throw, wp_pure, implies_true, true_and]
  refine fun _ => ⟨fun _ => ?_, fun _ => ⟨Or.inl rfl, hva⟩⟩
  refine wp_mono (translateVirtualAddress_rel (fun _ => Or.inl rfl) .trans
    (fun a s => loadWord_storeFrame cfg a _ s) s) (fun a s' h => ⟨h.1, ?_⟩) (fun _ _ _ => trivial)
  rcases h.2.1 with h' | h'
  · exact h'.2
  · exact h' ▸ hva

/-- In M-mode the physical address is the virtual one. -/
theorem setupLoadAndStoreValue_machine {cfg : PageConfig} {mcause rs1 imm length : Int} {s : Hart}
    (hmode : ¬s.effectivePrivilegeMode < 0b11)
    (halign : opMod (effectiveAddress rs1 imm) (opIdiv length 8) = 0) :
    setupLoadAndStoreValue cfg mcause rs1 imm length s = .ok (effectiveAddress rs1 imm) s := by
  unfold effectiveAddress at halign
  apply eq_ok_of_wp
  simp only [setupLoadAndStoreValue, wp_bind, wp_get, wp_ite, wp_throw, wp_pure, halign, hmode, ne_eq,
    not_true_eq_false, false_imp_iff, not_false_eq_true, forall_const, true_and,
    effectiveAddress, and_self]

/-! ## Flags cleared by a page walk -/

/-- A load of the address is a load of a status register whose interrupt flag is set. -/
def PendingStatus (s : Hart) (address : Int) : Prop :=
  ∃ k : Fin 4, address = mmioStart + uartStatusOffset + uartMmioSize * (k.val : Int) ∧
    opAnd s.uartFlags (opShl 1 (k.val : Int)) ≠ 0

/-- The address of a PTE in the table at `a`. -/
def pteAddress (va a : Int) (i : Nat) : Int := opAnd (opShr va ((i + 1) * 10)) 0b111111111100 + a

/-- The page walk of a store to `va` reads a status register whose interrupt flag is set. -/
def WalkClears (cfg : PageConfig) (s : Hart) (va : Int) : Prop :=
  s.effectivePrivilegeMode < 0b11 ∧ 0x80000000 ≤ s.csr cfg satpCsr ∧
  (PendingStatus s (pteAddress va (opAnd (s.csr cfg satpCsr) 0x3fffff * 4096) 1) ∨
    ∃ pte, loadWord cfg (pteAddress va (opAnd (s.csr cfg satpCsr) 0x3fffff * 4096) 1)
        { mcause := 7, mtval := va } s = .ok pte s ∧
      opAnd pte 0b1010 = 0 ∧ PendingStatus s (pteAddress va (opShl (opAnd pte 0xfffffc00) 2) 0))

/-- The status registers lie in the range of the UARTs. -/
theorem PendingStatus.range {s : Hart} {address : Int} (h : PendingStatus s address) :
    mmioStart + 0x10 ≤ address ∧ address < mmioStart + 0x50 := by
  obtain ⟨k, rfl, -⟩ := h
  unfold uartStatusOffset uartMmioSize
  omega

theorem pendingStatus_iff (cfg : PageConfig) {s : Hart} {address : Int}
    (hlo : mmioStart + 0x10 ≤ address) (hhi : address < mmioStart + 0x50) :
    PendingStatus s address ↔ (accessUart cfg s (address - mmioStart)).offset = uartStatusOffset ∧
      opAnd s.uartFlags (opShl 1 (accessUart cfg s (address - mmioStart)).uartShift) ≠ 0 := by
  have hmod : opMod (address - mmioStart - uartRxOffset) uartMmioSize =
      (address - mmioStart - 0x10) % 0x10 :=
    opMod_eq (by unfold uartRxOffset; omega) (by decide)
  have hdiv : opIdiv (address - mmioStart - uartRxOffset) uartMmioSize =
      (address - mmioStart - 0x10) / 0x10 :=
    opIdiv_eq _ (by decide)
  simp only [accessUart, hmod, hdiv, PendingStatus]
  unfold uartRxOffset uartStatusOffset uartMmioSize
  constructor
  · rintro ⟨k, rfl, hk⟩
    refine ⟨by omega, ?_⟩
    rw [show (mmioStart + 0x18 + 0x10 * (k.val : Int) - mmioStart - 0x10) /
      0x10 = (k.val : Int) by omega]
    exact hk
  · rintro ⟨hoff, hmask⟩
    refine ⟨⟨((address - mmioStart - 0x10) / 0x10).toNat, by omega⟩, by dsimp only; omega, ?_⟩
    dsimp only
    rwa [Int.toNat_of_nonneg (by omega)]

theorem loadMmioWord_uartFlags (cfg : PageConfig) {address : Int} (trap : Trap) (s : Hart)
    (h4 : address % 4 = 0) (hge : mmioStart ≤ address) (hlt : address < 2 ^ 34) :
    wp (loadMmioWord cfg address trap) (fun _ s' => s'.uartFlags = s.uartFlags ↔
      ¬PendingStatus s address)
      (fun _ _ => True) s := by
  have hoff : opAnd (address - mmioStart) 0x3fffffffc = address - mmioStart := by
    unfold mmioStart at *
    rw [opAnd_mask _ 2 32 (by decide) (by decide)]
    omega
  simp only [loadMmioWord, loadUartStatus, loadUartRx, wp_bind, wp_get, wp_set,
    wp_ite, wp_throw, wp_pure, implies_true, true_and, hoff, true_iff]
  refine ⟨fun hs hp => ?_, fun _ hmax => ⟨fun hrx => ?_, fun htimer _ hp => ?_⟩⟩
  · have := hp.range
    unfold syscon mmioStart at *
    omega
  · have hlo : mmioStart + 0x10 ≤ address := by
      unfold uartRxOffset at hrx
      omega
    have hp := pendingStatus_iff cfg (s := s) hlo (by omega)
    refine ⟨fun hstatus => ⟨fun hmask => ?_, fun hmask => ?_⟩, fun hstatus => ?_⟩
    · exact iff_of_false (opAnd_opNot_ne hmask) (not_not.mpr (hp.mpr ⟨hstatus, hmask⟩))
    · exact fun h => hmask (hp.mp h).2
    · have hn : ¬PendingStatus s address := fun h => hstatus (hp.mp h).1
      simp only [hn, not_false_eq_true, implies_true, and_self]
  · have := hp.range
    unfold uartRxOffset at htimer
    omega

theorem loadWord_uartFlags (cfg : PageConfig) {address : Int} (trap : Trap) (s : Hart)
    (h4 : address % 4 = 0) (hlt : address < 2 ^ 34) :
    wp (loadWord cfg address trap) (fun _ s' => s'.uartFlags = s.uartFlags ↔ ¬PendingStatus s address)
      (fun _ _ => True) s := by
  have hrom : cfg.romSize ≤ mmioStart := by
    have := cfg.romSize_le
    unfold PageConfig.romSize mmioStart
    omega
  have hlow (h : address < mmioStart) : ¬PendingStatus s address := fun hp => by
    have := hp.range
    omega
  simp only [loadWord, loadRamOrMmioWord, wp_bind, wp_get, wp_ite, wp_throw,
    wp_pure, implies_true, true_and, true_iff]
  exact ⟨fun h => hlow (by omega), fun _ => ⟨fun h => loadMmioWord_uartFlags cfg trap s h4 h hlt,
    fun h _ _ => hlow (by omega)⟩⟩

theorem pteAddress_range (va : Int) (i : Nat) {a : Int} (ha : a % 4096 = 0) (ha' : a < 2 ^ 34) :
    pteAddress va a i % 4 = 0 ∧ pteAddress va a i < 2 ^ 34 := by
  unfold pteAddress
  rw [opAnd_mask _ 2 10 (by decide) (by decide)]
  omega

theorem StoreFrame.uartFlags_ne {s s' s'' : Hart} (h : StoreFrame s s') (h' : StoreFrame s' s'')
    (hne : s'.uartFlags ≠ s.uartFlags) : s''.uartFlags ≠ s.uartFlags := by
  rcases h with rfl | ⟨m, p, rfl, hm⟩
  · exact absurd rfl hne
  · rcases h' with rfl | ⟨m', p', rfl, -⟩
    · exact hne
    · exact opAnd_opAnd_ne hm m'

/-- The last level of a page walk. -/
theorem translateStep2_uartFlags (cfg : PageConfig) (mtval : Int) {a : Int} (s : Hart)
    (ha : a % 4096 = 0) (ha' : a < 2 ^ 34) :
    wp (translateStep2 cfg { mcause := 7, mtval := mtval } 0 a)
      (fun _ s' => s'.uartFlags = s.uartFlags ↔ ¬PendingStatus s (pteAddress mtval a 0))
      (fun _ _ => True) s := by
  have hrange := pteAddress_range mtval 0 ha ha'
  simp only [translateStep2, translateLevel, wp_bind, wp_ite, wp_throw, implies_true, true_and, and_true]
  refine wp_mono (loadWord_uartFlags cfg _ s hrange.1 hrange.2)
    (fun pte s' h _ _ => ?_) (fun _ _ _ => trivial)
  refine wp_mono (translateLeaf_frame pte _ _ s') (fun _ s'' h' => ?_) (fun _ _ _ => trivial)
  rw [h'.1]
  exact h

/-- The page walk leaves the flags as they are if and only if it reads no pending status register. -/
theorem setupLoadAndStoreValue_uartFlags (cfg : PageConfig) (rs1 imm length : Int) (s : Hart) :
    wp (setupLoadAndStoreValue cfg 6 rs1 imm length)
      (fun _ s' => s'.uartFlags = s.uartFlags ↔ ¬WalkClears cfg s (effectiveAddress rs1 imm))
      (fun _ _ => True) s := by
  simp only [setupLoadAndStoreValue, wp_bind, wp_get, wp_ite, wp_throw, wp_pure, implies_true, true_and,
    true_iff]
  refine fun _ => ⟨fun hmode => ?_, fun hmode hw => hmode hw.1⟩
  change wp (translateVirtualAddress cfg { mcause := 7, mtval := effectiveAddress rs1 imm }) _ _ s
  generalize effectiveAddress rs1 imm = va
  simp only [translateVirtualAddress, wp_bind, wp_get, wp_ite, wp_pure, true_iff]
  refine ⟨fun hbare hw => absurd hw.2.1 (by omega), fun hsatp => ?_⟩
  obtain ⟨root, hroot⟩ : ∃ root, root = opAnd (s.csr cfg satpCsr) 0x3fffff * 4096 := ⟨_, rfl⟩
  have hlow := opAnd_low (s.csr cfg satpCsr) 22 (by decide)
  have hrange := pteAddress_range va 1 (a := root) (by omega) (by norm_num at hlow; omega)
  have hload := wp_and (loadWord_storeFrame cfg _ va s)
    (loadWord_uartFlags cfg { mcause := 7, mtval := va } s hrange.1 hrange.2)
  rw [translateStep2, ← hroot]
  simp only [translateLevel, wp_bind, wp_ite, wp_throw, implies_true, true_and]
  refine wp_intro (fun pte s' hx _ => ?_) (fun _ _ _ => trivial)
  obtain ⟨hframe, hflags⟩ := wp_ok hload hx
  by_cases hp : PendingStatus s (pteAddress va root 1)
  · -- the flag is cleared, and nothing sets it again
    have hw : WalkClears cfg s va := ⟨hmode, by omega, Or.inl (hroot ▸ hp)⟩
    have hne : s'.uartFlags ≠ s.uartFlags := fun h => hflags.mp h hp
    have hdone {s''} (h : StoreFrame s' s'') : s''.uartFlags = s.uartFlags ↔ ¬WalkClears cfg s va :=
      iff_of_false (hframe.uartFlags_ne h hne) (not_not.mpr hw)
    refine ⟨fun _ => ?_, fun _ => ?_⟩
    · exact wp_mono (translateLeaf_frame pte _ _ s') (fun _ _ h =>
        hdone (Or.inl h.1)) (fun _ _ _ => trivial)
    · exact wp_mono (translateStep2_rel (fun _ => Or.inl rfl) .trans
        (fun a s => loadWord_storeFrame cfg a va s) 0 _ s') (fun _ _ h =>
          hdone h.1) (fun _ _ _ => trivial)
  · obtain rfl := hframe.eq_of_uartFlags (hflags.mpr hp)
    have hwalk : WalkClears cfg s' va ↔ opAnd pte 0b1010 = 0 ∧
        PendingStatus s' (pteAddress va (opShl (opAnd pte 0xfffffc00) 2) 0) := by
      constructor
      · rintro ⟨-, -, h | ⟨pte', hx', hleaf, hpte⟩⟩
        · exact absurd (hroot ▸ h) hp
        · rw [← hroot] at hx'
          cases hx.symm.trans hx'
          exact ⟨hleaf, hpte⟩
      · exact fun h => ⟨hmode, by omega, Or.inr ⟨pte, hroot ▸ hx, h⟩⟩
    rw [hwalk]
    refine ⟨fun hleaf => ?_, fun hleaf => ?_⟩
    · refine wp_mono (translateLeaf_frame pte _ _ s') (fun _ s'' h => ?_) (fun _ _ _ => trivial)
      exact iff_of_true (congrArg Hart.uartFlags h.1) fun h' => hleaf h'.1
    · have htable : opShl (opAnd pte 0xfffffc00) 2 = opAnd pte 0xfffffc00 * 2 ^ 2 := by
        have hle := opAnd_le (a := pte) (b := 0xfffffc00) (by decide) (by decide)
        exact opShl_eq _ 2 (by decide) (by omega) (by omega)
      have hmask := opAnd_mask (b := 0xfffffc00) pte 10 22 (by decide) (by decide)
      refine wp_mono (translateStep2_uartFlags cfg va s' (by omega) (by omega)) (fun _ s'' h => ?_)
        (fun _ _ _ => trivial)
      rw [h, not_not.mp hleaf, eq_self_iff_true, true_and]

/-! ## The check of the address -/

theorem offset_eq {address : Int} (h : mmioStart ≤ address) (h' : address < 2 ^ 32) :
    opAnd (address - mmioStart) 0x3fffffffc = (address - mmioStart) / 4 * 4 := by
  unfold mmioStart at *
  rw [opAnd_mask (address - 0xf0000000) 2 32 (by decide) (by decide)]
  omega

/-- A store of 8 or 16 bits to an address that is not mapped. -/
theorem loadRamOrMmioWord_of_not_mapped {cfg : PageConfig} {s : Hart} {address : Int} (trap : Trap)
    (hlt : address < 2 ^ 32) (h : ¬Mapped cfg s address) :
    loadRamOrMmioWord cfg address trap s = .error trap s := by
  have hram : cfg.ramEnd ≤ mmioStart := by
    have := cfg.ramSize_le
    unfold PageConfig.ramEnd ramStart mmioStart
    omega
  unfold Mapped at h
  apply eq_error_of_wp
  simp only [loadRamOrMmioWord, loadMmioWord, wp_bind, wp_get, wp_ite, wp_throw, wp_pure, and_self,
    implies_true, true_and]
  refine ⟨fun hmmio => ⟨by omega, fun _ hoff => ?_⟩, by omega⟩
  rw [offset_eq hmmio hlt] at *
  unfold uartRxOffset
  exact ⟨by omega, by omega⟩

/-- A load or a store of 8 or 16 bits to a mapped address does not trap. -/
theorem loadRamOrMmioWord_of_mapped {cfg : PageConfig} {s : Hart} {address : Int} (trap : Trap)
    (hlt : address < 2 ^ 32) (h : Mapped cfg s address) :
    wp (loadRamOrMmioWord cfg address trap) (fun _ _ => True) (fun _ _ => False) s := by
  have hram : cfg.ramEnd ≤ mmioStart := by
    have := cfg.ramSize_le
    unfold PageConfig.ramEnd ramStart mmioStart
    omega
  unfold Mapped at h
  simp only [loadRamOrMmioWord, loadMmioWord, loadUartStatus, loadUartRx,
    wp_bind, wp_get, wp_set, wp_ite, wp_throw, wp_pure, implies_true, and_true, true_and]
  refine ⟨fun hmmio hsys => ?_, fun _ => ?_⟩
  · rw [offset_eq hmmio hlt]
    unfold uartRxOffset
    exact ⟨by omega, fun _ hoff => by omega⟩
  · unfold syscon mmioStart at *
    omega

theorem storeRamWordUnchecked_ok (cfg : PageConfig) (address value : Int) (slot : Tile × Value)
    (rdId rd : Int) (s : Hart) :
    wp (storeRamWordUnchecked cfg address value slot rdId rd) (fun _ _ => True)
      (fun _ _ => False) s := by
  simp only [storeRamWordUnchecked, wp_bind, wp_get, wp_set, wp_pure]

theorem storeMmioWordUnchecked_ok (cfg : PageConfig) (address value : Int) (s : Hart) :
    wp (storeMmioWordUnchecked cfg address value) (fun _ _ => True) (fun _ _ => False) s := by
  simp only [storeMmioWordUnchecked, wp_bind, wp_get, wp_set, wp_ite, wp_pure, implies_true, and_self]

/-- A store does not trap if its word is mapped, or if it takes the fast path. -/
theorem storeValueAt_ok {cfg : PageConfig} {s : Hart} {length address : Int} (mtval rs2 : Int)
    (hlt : address < 2 ^ 32) (h : Mapped cfg s address ∨ length = 32) :
    wp (storeValueAt cfg mtval rs2 length address) (fun _ _ => True) (fun _ _ => False) s := by
  simp only [storeValueAt, wp_bind, wp_ite, wp_pure]
  have hwrite (value : Int) (s : Hart) :
      (opAnd address 0xfffffffc ≥ mmioStart →
        wp (storeMmioWordUnchecked cfg (opAnd address 0xfffffffc) value)
        (fun _ _ => True) (fun _ _ => False) s) ∧
      (¬opAnd address 0xfffffffc ≥ mmioStart →
        wp (storeRamWordUnchecked cfg (opAnd address 0xfffffffc) value
        (accessRam cfg address) 0 0) (fun _ _ => True) (fun _ _ => False) s) :=
    ⟨fun _ => storeMmioWordUnchecked_ok cfg _ value s, fun _ =>
      storeRamWordUnchecked_ok cfg _ value _ 0 0 s⟩
  refine ⟨fun _ => trivial, fun _ => ⟨fun _ => hwrite rs2 s, fun hlen => ?_⟩⟩
  exact wp_mono (loadRamOrMmioWord_of_mapped _ hlt (h.resolve_right hlen)) (fun _ s' _ => hwrite _ s')
    (fun _ _ h => h)

theorem storeValueAt_of_not_mapped {cfg : PageConfig} {s : Hart} {length address : Int} (mtval rs2 : Int)
    (hlt : address < 2 ^ 32) (h : ¬Mapped cfg s address) (hlen : length ≠ 32) :
    storeValueAt cfg mtval rs2 length address s = .error { mcause := 7, mtval := mtval } s := by
  have hsyscon : address ≠ syscon := fun he => h (Or.inr (Or.inl he))
  simp only [storeValueAt, if_neg hsyscon, if_neg hlen]
  change EStateM.bind _ _ s = _
  simp only [EStateM.bind, loadRamOrMmioWord_of_not_mapped _ hlt h]

/-! ## Stores -/

/-- The handler of a store. -/
theorem execute_store {cfg : PageConfig} {d : Fetched} {rs1 rs2 length : Int} {label : Label}
    (hlabel : labels (d.opId + 192) = some label) (hlen : storeLength label = some length) :
    execute cfg d rs1 rs2 = storeValue cfg d rs1 rs2 length := by
  unfold execute
  rw [hlabel]
  cases label <;> simp only [storeLength, Option.some.injEq, reduceCtorEq] at hlen <;> subst hlen <;> rfl

theorem storeValue_of_setup {cfg : PageConfig} {d : Fetched} {rs1 rs2 length address : Int} {s s' : Hart}
    (h : setupLoadAndStoreValue cfg 6 rs1 d.imm length s = .ok address s') :
    storeValue cfg d rs1 rs2 length s =
      storeValueAt cfg (effectiveAddress rs1 d.imm) rs2 length address s' := by
  unfold storeValue
  change EStateM.bind _ _ s = _
  rw [EStateM.bind, h]

end Mlogv32.Cpu
