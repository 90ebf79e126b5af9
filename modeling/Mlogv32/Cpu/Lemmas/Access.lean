import Mlogv32.Cpu.Lemmas.Memory
import Mlogv32.Cpu.Lemmas.Integer

/-!
# Accesses to RAM

Each load, store and atomic to an address in RAM returns the value and leaves the bytes that the
reference memory gives.
-/

namespace Mlogv32.Cpu
open Mlog Logic Isa

/-! ## Translated addresses -/

/-- The memory instruction at a label. -/
def memOp : Label → Option MemOp
  | .LB => some (.load .lb)
  | .LH => some (.load .lh)
  | .LW => some (.load .lw)
  | .LBU => some (.load .lbu)
  | .LHU => some (.load .lhu)
  | .SB => some (.store .sb)
  | .SH => some (.store .sh)
  | .SW => some (.store .sw)
  | .LR_W => some .lr
  | .SC_W => some .sc
  | .AMOADD_W => some (.amo .amoadd)
  | .AMOSWAP_W => some (.amo .amoswap)
  | .AMOXOR_W => some (.amo .amoxor)
  | .AMOOR_W => some (.amo .amoor)
  | .AMOAND_W => some (.amo .amoand)
  | .AMOMIN_W => some (.amo .amomin)
  | .AMOMAX_W => some (.amo .amomax)
  | .AMOMINU_W => some (.amo .amominu)
  | .AMOMAXU_W => some (.amo .amomaxu)
  | _ => none

/-- The physical address of an access, with the checks that the handler makes to find it. -/
def physicalAddress (cfg : PageConfig) (op : MemOp) (imm rs1 : Int) : Op Int :=
  match op with
  | .load op => setupLoadAndStoreValue cfg 4 rs1 imm (8 * op.bytes)
  | .store op => setupLoadAndStoreValue cfg 6 rs1 imm (8 * op.bytes)
  | .lr => atomicValidateAddress cfg 4 rs1
  | .sc | .amo _ => atomicValidateAddress cfg 6 rs1

/-- The handler of a memory instruction. -/
def memHandler (cfg : PageConfig) (d : Fetched) (rs1 rs2 : Int) : MemOp → Op End
  | .load op => loadValue cfg d rs1 (8 * op.bytes) op.signed
  | .store op => storeValue cfg d rs1 rs2 (8 * op.bytes)
  | .lr => lrW cfg d rs1
  | .sc => scW cfg d rs1 rs2
  | .amo _ => amo cfg d rs1 rs2

theorem handler_eq_memHandler {cfg : PageConfig} {d : Fetched} {rs1 rs2 : Int} {label : Label}
    {op : MemOp} (hop : memOp label = some op) :
    handler cfg d rs1 rs2 label = memHandler cfg d rs1 rs2 op := by
  cases label <;> simp only [memOp, Option.some.injEq, reduceCtorEq] at hop <;> subst hop <;> rfl

/-- The number of bytes that an access touches. -/
def memBytes : MemOp → Nat
  | .load op => op.bytes
  | .store op => op.bytes
  | .lr | .sc | .amo _ => 4

theorem setupLoadAndStoreValue_frame (cfg : PageConfig) (mcause rs1 imm : Int) {n : Nat}
    (hn : n ∣ 4) (s : Hart) :
    wp (setupLoadAndStoreValue cfg mcause rs1 imm (8 * n)) (fun a s' => LoadFrame s s' ∧ a % n = 0)
      (fun _ s' => LoadFrame s s') s := by
  have hpos : 0 < n := Nat.pos_of_dvd_of_pos hn (by decide)
  have hdiv : opIdiv (8 * n) 8 = n := by
    rw [opIdiv_eq _ (by decide)]
    omega
  have hmod (x : Int) (h : ¬opMod x n ≠ 0) : x % n = 0 := by
    rw [opMod, if_neg (by omega)] at h
    exact Int.emod_eq_zero_of_dvd (Int.dvd_of_tmod_eq_zero (not_not.mp h))
  simp only [setupLoadAndStoreValue, hdiv, wp_bind, wp_get, wp_ite, wp_throw, wp_pure]
  refine ⟨fun _ => .refl s, fun halign => ⟨fun _ => ?_, fun _ => ⟨.refl s, hmod _ halign⟩⟩⟩
  refine wp_mono (translateVirtualAddress_frame cfg _ s) (fun a s' h => ⟨h.1, ?_⟩) (fun _ _ h => h.2)
  have hpage : (n : Int) ∣ 4096 := (Int.natCast_dvd_natCast.mpr hn).trans (by decide)
  rw [← Int.emod_emod_of_dvd a hpage, h.2.2, Int.emod_emod_of_dvd _ hpage]
  exact hmod _ halign

theorem atomicValidateAddress_frame (cfg : PageConfig) (mcause rs1 : Int) (s : Hart) :
    wp (atomicValidateAddress cfg mcause rs1) (fun a s' => LoadFrame s s' ∧ InRam cfg a ∧ a % 4 = 0)
      (fun _ s' => LoadFrame s s') s := by
  have hmod (h : ¬opMod rs1 4 ≠ 0) : rs1 % 4 = 0 := by
    rw [opMod, if_neg (by decide)] at h
    exact Int.emod_eq_zero_of_dvd (Int.dvd_of_tmod_eq_zero (not_not.mp h))
  have hrange {a : Int} {s' : Hart} (h : LoadFrame s s') (ha : a % 4 = 0) :
      (a < ramStart → LoadFrame s s') ∧ (¬a < ramStart → (a ≥ cfg.ramEnd → LoadFrame s s') ∧
        (¬a ≥ cfg.ramEnd → LoadFrame s s' ∧ InRam cfg a ∧ a % 4 = 0)) :=
    ⟨fun _ => h, fun hlo => ⟨fun _ => h, fun hhi => ⟨h, ⟨not_lt.mp hlo, not_le.mp hhi⟩, ha⟩⟩⟩
  simp only [atomicValidateAddress, wp_bind, wp_get, wp_ite, wp_throw, wp_pure]
  refine ⟨fun _ => .refl s, fun halign => ⟨fun _ => ?_, fun _ => hrange (.refl s) (hmod halign)⟩⟩
  refine wp_mono (translateVirtualAddress_frame cfg _ s) (fun a s' h => hrange h.1 ?_) (fun _ _ h => h.2)
  have h4096 := h.2.2
  have := hmod halign
  dsimp only at h4096
  omega

theorem physicalAddress_frame (cfg : PageConfig) (op : MemOp) (imm rs1 : Int) (s : Hart) :
    wp (physicalAddress cfg op imm rs1) (fun a s' => LoadFrame s s' ∧ a % memBytes op = 0)
      (fun _ s' => LoadFrame s s') s := by
  cases op with
  | load op => exact setupLoadAndStoreValue_frame cfg 4 rs1 imm (by cases op <;> decide) s
  | store op => exact setupLoadAndStoreValue_frame cfg 6 rs1 imm (by cases op <;> decide) s
  | lr => exact wp_mono (atomicValidateAddress_frame cfg 4 rs1 s) (fun _ _ h =>
      ⟨h.1, h.2.2⟩) (fun _ _ h => h)
  | sc => exact wp_mono (atomicValidateAddress_frame cfg 6 rs1 s) (fun _ _ h =>
      ⟨h.1, h.2.2⟩) (fun _ _ h => h)
  | amo op => exact wp_mono (atomicValidateAddress_frame cfg 6 rs1 s) (fun _ _ h =>
      ⟨h.1, h.2.2⟩) (fun _ _ h => h)

/-! ## Loads -/

section

variable {cfg : PageConfig} {a : Int}

theorem loadRamOrMmioWord_ram (ha : InRam cfg a) (trap : Trap) (s : Hart) :
    loadRamOrMmioWord cfg a trap s = .ok (loadRamWordUnchecked cfg s.procs a) s := by
  have hmmio : a < mmioStart := by
    have := cfg.ramSize_le
    obtain ⟨-, ha⟩ := ha
    unfold PageConfig.ramEnd ramStart at ha
    unfold mmioStart
    omega
  unfold loadRamOrMmioWord
  rw [if_neg (by omega), if_neg (not_lt.mpr ha.1), if_neg (not_le.mpr ha.2)]
  rfl

theorem loadWord_ram (ha : InRam cfg a) (trap : Trap) (s : Hart) :
    loadWord cfg a trap s = .ok (loadRamWordUnchecked cfg s.procs a) s := by
  have hrom : cfg.romSize ≤ a := by
    have := cfg.romSize_le
    have := ha.1
    unfold ramStart at this
    unfold PageConfig.romSize
    omega
  unfold loadWord
  rw [if_neg (not_lt.mpr hrom)]
  exact loadRamOrMmioWord_ram ha trap s

theorem extractValue_eq (ha : InRam cfg a) {n : Nat} (hn : a % 4 + n ≤ 4) (procs : Procs) :
    extractValue (loadRamWordUnchecked cfg procs a) a (8 * n) = (ramBytes cfg procs).read a n := by
  have hword := swapEndianness_word (cell cfg procs (a - ramStart)).toNum
  rw [← loadRamWordUnchecked_eq] at hword
  have hpos : 0 ≤ a := by
    have := ha.1
    unfold ramStart at this
    omega
  rw [read_ramBytes cfg procs ha hn, extractValue, opMod_eq hpos (by decide)]
  obtain ⟨w, hw⟩ := Int.eq_ofNat_of_zero_le hword.1
  obtain ⟨o, ho, hlt⟩ : ∃ o : Nat, a % 4 = o ∧ o < 4 := ⟨(a % 4).toNat, by omega, by omega⟩
  rw [hw] at hword ⊢
  rw [ho]
  have hshr := opShr_eq w (8 * o) (by omega) (by omega) (by omega)
  push_cast at hshr
  rw [mul_comm (o : Int), hshr, opPow, opMod_eq (by positivity) (by positivity)]
  push_cast
  rw [Int.toNat_natCast, Int.toNat_natCast, show (8 * (n : Int)).toNat = 8 *
    n by omega, pow_mul, pow_mul]
  norm_num

theorem extendSignRd_eq {k v : Nat} (hk : k < 32) (hv : v < 2 ^ (k + 1)) :
    extendSignRd v (k + 1 : Nat) = ((BitVec.ofNat (k + 1) v).signExtend 32).toNat := by
  have h := extendSign_toNat hk (BitVec.ofNat (k + 1) v)
  have hpow : (2 : Int) ^ k ≤ 2 ^ 31 := pow_le_pow_right₀ (by decide) (by omega)
  have hpos : (0 : Int) < 2 ^ k := by positivity
  have hmask : opShl 1 (((k + 1 : Nat) : Int) - 1) = 2 ^ k := by
    rw [show ((k + 1 : Nat) : Int) - 1 = k by omega,
      opShl_eq 1 k (by omega) (by omega) (by omega), one_mul]
  rw [BitVec.toNat_ofNat, Nat.mod_eq_of_lt hv] at h
  rw [← h, extendSignRd, hmask]
  rfl

theorem loadValueAt_ram (ha : InRam cfg a) {op : LoadOp} (halign : a % op.bytes = 0) (mtval : Int)
    (s : Hart) :
    loadValueAt cfg mtval (8 * op.bytes) op.signed a s =
      .ok (op.extend ((ramBytes cfg s.procs).read a op.bytes)).toNat s := by
  have hfit : a % 4 + op.bytes ≤ 4 := by
    cases op <;> simp only [LoadOp.bytes] at halign ⊢ <;> omega
  have hvalue := extractValue_eq ha hfit s.procs
  have hlt := (ramBytes cfg s.procs).read_lt a op.bytes
  unfold loadValueAt
  change EStateM.bind _ _ s = _
  rw [EStateM.bind, loadWord_ram ha]
  dsimp only
  rw [hvalue]
  generalize (ramBytes cfg s.procs).read a op.bytes = v at hlt
  have hbytes {k : Nat} (h : v < 2 ^ k) (hk : k ≤ 32) : ((BitVec.ofNat 32 v).toNat : Int) = v := by
    have := Nat.pow_le_pow_right (n := 2) (by decide) hk
    rw [BitVec.toNat_ofNat, Nat.mod_eq_of_lt (by omega)]
  cases op with
  | lb => exact congrArg (EStateM.Result.ok · s) (extendSignRd_eq (k := 7) (by decide) hlt)
  | lh => exact congrArg (EStateM.Result.ok · s) (extendSignRd_eq (k := 15) (by decide) hlt)
  | lw => exact congrArg (EStateM.Result.ok · s) (hbytes (k := 32) hlt le_rfl).symm
  | lbu => exact congrArg (EStateM.Result.ok · s) (hbytes (k := 8) hlt (by decide)).symm
  | lhu => exact congrArg (EStateM.Result.ok · s) (hbytes (k := 16) hlt (by decide)).symm

end

/-! ## Stores -/

section

variable {cfg : PageConfig} {a : Int}

theorem storedRam_reservationSet (s : Hart) (address value : Int) :
    (storedRam cfg s address value).reservationSet = s.reservationSet := by
  unfold storedRam
  split <;> rfl

theorem ramBytes_storedRam_word (ha : InRam cfg a) (halign : a % 4 = 0) (v : BitVec 32) (s : Hart) :
    ramBytes cfg (storedRam cfg s a v.toNat).procs = (ramBytes cfg s.procs).write a 4 v.toNat := by
  refine ramBytes_storedRam (by omega) (by omega) ha rfl (by omega) fun i hi => ?_
  rw [halign, if_pos ⟨Nat.zero_le i, by omega⟩]
  rfl

theorem InRam.lt_mmioStart (ha : InRam cfg a) : a < mmioStart := by
  have := cfg.ramSize_le
  have := ha.2
  unfold PageConfig.ramEnd ramStart at this
  unfold mmioStart
  omega

theorem InRam.nonneg (ha : InRam cfg a) : 0 ≤ a := by
  have := ha.1
  unfold ramStart at this
  omega

theorem InRam.word (ha : InRam cfg a) : InRam cfg (a / 4 * 4) ∧ opAnd a 0xfffffffc = a / 4 * 4 := by
  have hlt := ha.lt_mmioStart
  have hnonneg := ha.nonneg
  have hmask := opAnd_mask (b := 0xfffffffc) a 2 30 (by decide) (by decide)
  unfold mmioStart at hlt
  unfold InRam PageConfig.ramEnd ramStart at *
  omega

theorem storeValueAt_ram (ha : InRam cfg a) {op : StoreOp} (halign : a % op.bytes = 0) (mtval : Int)
    (rs2 : BitVec 32) (s : Hart) :
    ∃ s', storeValueAt cfg mtval rs2.toNat (8 * op.bytes) a s = .ok (.endInstructionWithRd 0 0) s' ∧
      ramBytes cfg s'.procs = (ramBytes cfg s.procs).write a op.bytes rs2.toNat ∧
      s'.reservationSet = s.reservationSet := by
  have hsyscon : a ≠ syscon := by
    have := ha.lt_mmioStart
    unfold mmioStart at this
    unfold syscon
    omega
  obtain ⟨hword, hmask⟩ := ha.word
  have hslot := accessRam_congr cfg ha.1 hword.1 (show a / 4 = a / 4 * 4 / 4 by omega)
  have hmmio := hword.lt_mmioStart
  by_cases hlen : op.bytes = 4
  · have ha4 : a / 4 * 4 = a := by
      rw [hlen] at halign
      push_cast at halign
      omega
    refine ⟨storedRam cfg s a rs2.toNat, ?_, ?_, storedRam_reservationSet s a _⟩
    · rw [hlen]
      simp only [storeValueAt, if_neg hsyscon, hmask, ha4]
      rw [if_pos (by decide)]
      change (if a ≥ mmioStart then storeMmioWordUnchecked cfg a rs2.toNat
        else storeRamWordUnchecked cfg a rs2.toNat (accessRam cfg a) 0 0 : Op End) s = _
      rw [if_neg (not_le.mpr ha.lt_mmioStart)]
      exact storeRamWordUnchecked_eq cfg a _ 0 0 s
    · rw [hlen]
      exact ramBytes_storedRam_word ha (by omega) rs2 s
  · have hn : op.bytes = 1 ∨ op.bytes = 2 := by
      cases op <;> simp [StoreOp.bytes] at hlen ⊢
    have hw := swapEndianness_word (cell cfg s.procs (a - ramStart)).toNum
    have hins := insertValue_bytes hw.1 hw.2 (Int.natCast_nonneg rs2.toNat) ha.nonneg hn halign
    rw [← loadRamWordUnchecked_eq] at hins
    refine ⟨storedRam cfg s (a / 4 * 4)
      (insertValue (loadRamWordUnchecked cfg s.procs a) a rs2.toNat (8 * op.bytes)),
      ?_, ?_, storedRam_reservationSet s _ _⟩
    · simp only [storeValueAt, if_neg hsyscon, hmask]
      rw [if_neg (by omega)]
      change EStateM.bind (loadRamOrMmioWord cfg a _) _ s = _
      rw [EStateM.bind, loadRamOrMmioWord_ram ha]
      change (if a / 4 * 4 ≥ mmioStart then storeMmioWordUnchecked cfg _ (insertValue _ a rs2.toNat _)
        else storeRamWordUnchecked cfg _ (insertValue _ a rs2.toNat _) (accessRam cfg a) 0 0 :
          Op End) s = _
      rw [if_neg (not_le.mpr hmmio), hslot]
      exact storeRamWordUnchecked_eq cfg _ _ 0 0 s
    · have hfit : a % 4 + op.bytes ≤ 4 := by
        rcases hn with h | h <;> rw [h] at halign ⊢ <;> push_cast at halign ⊢ <;> omega
      refine ramBytes_storedRam hins.1.1 hins.1.2 hword (by omega) hfit fun i hi => ?_
      rw [hins.2 i hi, Int.toNat_natCast, loadRamWordUnchecked_eq, loadRamWordUnchecked_eq,
        cell_congr cfg s.procs (sub_nonneg.mpr ha.1) (sub_nonneg.mpr hword.1)
          (by unfold ramStart; omega)]

end

/-! ## Atomics -/

/-- The offset of a modification in the jump table of the AMOs. -/
def amoOffset : AmoOp → Int
  | .amoadd => 0
  | .amoswap => 2
  | .amoxor => 4
  | .amoor => 6
  | .amoand => 8
  | .amomin => 10
  | .amominu => 12
  | .amomax => 14
  | .amomaxu => 16

/-- The table that `amo` indexes by `op_id` agrees with LABELS. -/
theorem amoOp_of_label {opId : Int} {label : Label} {op : AmoOp} (h : labels (opId + 192) = some label)
    (hop : memOp label = some (.amo op)) : amoOp opId = amoOffset op := by
  obtain ⟨h0, h1⟩ := labels_range h
  have htable : ∀ i : Fin 256, ((labels (i : Nat)).bind memOp).all fun op =>
      match op with
      | .amo op => amoOp ((i : Nat) - 192) = amoOffset op
      | _ => true := by decide +kernel
  have hi := htable ⟨(opId + 192).toNat, by omega⟩
  simp only [Int.toNat_of_nonneg h0, h, Option.bind_some, hop, Option.all_some, decide_eq_true_eq] at hi
  rwa [add_sub_cancel_right] at hi

theorem amoModify_eq (op : AmoOp) (x y : BitVec 32) :
    opAnd (amoModify (amoOffset op) x.toNat y.toNat) 0xffffffff = (op.apply x y).toNat := by
  rw [opAnd_word]
  have hword (z : BitVec 32) : (z.toNat : Int) % 2 ^ 32 = z.toNat :=
    Int.emod_eq_of_lt (by omega) (by omega)
  cases op with
  | amoadd =>
      rw [AmoOp.apply, BitVec.toNat_add]
      push_cast
      rfl
  | amoswap => exact hword y
  | amoxor =>
      change opXor x.toNat y.toNat % 2 ^ 32 = _
      rw [opXor_word32, hword]
      rfl
  | amoor =>
      change opOr x.toNat y.toNat % 2 ^ 32 = _
      rw [opOr_word32, hword]
      rfl
  | amoand =>
      change opAnd x.toNat y.toNat % 2 ^ 32 = _
      rw [opAnd_word32, hword]
      rfl
  | amomin =>
      have h : amoModify (amoOffset .amomin) x.toNat y.toNat =
          min (unsignedToSigned x.toNat) (unsignedToSigned y.toNat) := by simp [amoModify, amoOffset]
      rw [h, unsignedToSigned_eq, unsignedToSigned_eq, min_def, AmoOp.apply]
      split
      · exact toInt_emod x
      · exact toInt_emod y
  | amomax =>
      have h : amoModify (amoOffset .amomax) x.toNat y.toNat =
          max (unsignedToSigned x.toNat) (unsignedToSigned y.toNat) := by simp [amoModify, amoOffset]
      rw [h, unsignedToSigned_eq, unsignedToSigned_eq, max_def, AmoOp.apply]
      split
      · exact toInt_emod y
      · exact toInt_emod x
  | amominu =>
      change min (x.toNat : Int) y.toNat % 2 ^ 32 = _
      rw [min_def, AmoOp.apply]
      simp only [Nat.cast_le]
      split
      · exact hword x
      · exact hword y
  | amomaxu =>
      change max (x.toNat : Int) y.toNat % 2 ^ 32 = _
      rw [max_def, AmoOp.apply]
      simp only [Nat.cast_le]
      split
      · exact hword y
      · exact hword x

/-! ## Instructions -/

/-- What the reference memory says of a hart. -/
def memState (cfg : PageConfig) (s : Hart) : MemState :=
  { bytes := ramBytes cfg s.procs, reservation := s.reservationSet }

/-- The end of an access that returns a value, or of a store. -/
def accessEnd (rdId : Int) : Option (BitVec 32) → End
  | some rd => .endInstructionWithRd rdId rd.toNat
  | none => .endInstructionWithRd 0 0

theorem LoadFrame.memState {cfg : PageConfig} {s s' : Hart} (h : LoadFrame s s') :
    memState cfg s' = memState cfg s := by
  obtain ⟨_, _, _, rfl, _⟩ := h
  rfl

section

variable {cfg : PageConfig} {a : Int}

theorem loadRamWordUnchecked_eq_read (ha : InRam cfg a) (halign : a % 4 = 0) (procs : Procs) :
    ∃ x : BitVec 32, x = BitVec.ofNat 32 ((ramBytes cfg procs).read a 4) ∧
    loadRamWordUnchecked cfg procs a = x.toNat := by
  have hw := swapEndianness_word (cell cfg procs (a - ramStart)).toNum
  rw [← loadRamWordUnchecked_eq] at hw
  refine ⟨_, rfl, ?_⟩
  rw [read_ramBytes cfg procs ha (by omega), halign, BitVec.toNat_ofNat]
  norm_num
  omega

theorem lrW_ram (ha : InRam cfg a) (halign : a % 4 = 0) {d : Fetched} {rs1 : Int} {s s' : Hart}
    (v : BitVec 32) (haddr : atomicValidateAddress cfg 4 rs1 s = .ok a s') :
    ∃ t, lrW cfg d rs1 s = .ok (accessEnd d.rdId ((memState cfg s').access a v .lr).1) t ∧
      memState cfg t = ((memState cfg s').access a v .lr).2 := by
  obtain ⟨x, hx, hword⟩ := loadRamWordUnchecked_eq_read ha halign s'.procs
  refine ⟨{ s' with reservationSet := some a }, ?_, rfl⟩
  rw [lrW, bind_ok haddr]
  change EStateM.Result.ok (End.endInstructionWithRd d.rdId (loadRamWordUnchecked cfg s'.procs a)) _ = _
  rw [hword, hx]
  rfl

theorem scW_ram (ha : InRam cfg a) (halign : a % 4 = 0) {d : Fetched} {rs1 : Int} {s s' : Hart}
    (v : BitVec 32) (haddr : atomicValidateAddress cfg 6 rs1 s = .ok a s') :
    ∃ t, scW cfg d rs1 v.toNat s = .ok (accessEnd d.rdId ((memState cfg s').access a v .sc).1) t ∧
      memState cfg t = ((memState cfg s').access a v .sc).2 := by
  rw [scW, bind_ok haddr, MemState.access]
  change ∃ t, (if s'.reservationSet = some a then _ else _ : Op End)
    { s' with reservationSet := none } = _ ∧ _
  by_cases hres : s'.reservationSet = some a
  · rw [if_pos hres, if_pos (show (memState cfg s').reservation = some a from hres)]
    refine ⟨_, storeRamWordUnchecked_eq cfg a _ _ 0 _, ?_⟩
    rw [memState, ramBytes_storedRam_word ha halign, storedRam_reservationSet]
    rfl
  · rw [if_neg hres, if_neg (show ¬(memState cfg s').reservation = some a from hres)]
    exact ⟨_, rfl, rfl⟩

theorem amo_ram (ha : InRam cfg a) (halign : a % 4 = 0) {d : Fetched} {rs1 : Int} {s s' : Hart}
    {op : AmoOp} (hop : amoOp d.opId = amoOffset op) (v : BitVec 32)
    (haddr : atomicValidateAddress cfg 6 rs1 s = .ok a s') :
    ∃ t, amo cfg d rs1 v.toNat s = .ok (accessEnd d.rdId ((memState cfg s').access a v (.amo op)).1) t ∧
      memState cfg t = ((memState cfg s').access a v (.amo op)).2 := by
  obtain ⟨x, hx, hword⟩ := loadRamWordUnchecked_eq_read ha halign s'.procs
  refine ⟨storedRam cfg s' a (op.apply x v).toNat, ?_, ?_⟩
  · rw [amo, bind_ok haddr, bind_get, hop, hword, amoModify_eq, storeRamWordUnchecked_eq, hx]
    rfl
  · rw [memState, ramBytes_storedRam_word ha halign, storedRam_reservationSet, hx]
    rfl

/-- An access to RAM refines the access of the reference memory. -/
theorem execute_access {d : Fetched} {label : Label} {op : MemOp} {rs1 : Int} (rs2 : BitVec 32)
    {s s' : Hart} (hlabel : labels (d.opId + 192) = some label) (hop : memOp label = some op)
    (haddr : physicalAddress cfg op d.imm rs1 s = .ok a s') (ha : InRam cfg a) :
    ∃ t, execute cfg d rs1 rs2.toNat s = .ok (accessEnd d.rdId ((memState cfg s).access a rs2 op).1) t ∧
      memState cfg t = ((memState cfg s).access a rs2 op).2 := by
  obtain ⟨hframe, halign⟩ := wp_ok (physicalAddress_frame cfg op d.imm rs1 s) haddr
  rw [← hframe.memState, execute, hlabel]
  dsimp only
  rw [handler_eq_memHandler hop]
  cases op with
  | load op =>
      refine ⟨s', ?_, rfl⟩
      rw [memHandler, loadValue,
        bind_ok (show setupLoadAndStoreValue cfg 4 rs1 d.imm (8 * op.bytes) s = _ from haddr),
        bind_ok (loadValueAt_ram ha halign _ s')]
      rfl
  | store op =>
      obtain ⟨t, ht, hbytes, hres⟩ := storeValueAt_ram ha halign (effectiveAddress rs1 d.imm) rs2 s'
      refine ⟨t, ?_, ?_⟩
      · rw [memHandler, storeValue_of_setup haddr, ht]
        rfl
      · rw [memState, hbytes, hres]
        rfl
  | lr => exact lrW_ram ha halign rs2 haddr
  | sc => exact scW_ram ha halign rs2 haddr
  | amo op => exact amo_ram ha halign (amoOp_of_label hlabel hop) rs2 haddr

end

end Mlogv32.Cpu
