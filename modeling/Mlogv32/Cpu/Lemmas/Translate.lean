import Mlogv32.Cpu.Lemmas.Load
import Mlogv32.Isa.Sv32

/-!
# Address translation against Sv32

Each check of `translate_virtual_address` on a PTE, as the check of the algorithm that it
implements.
-/

namespace Mlogv32.Cpu
open Mlog Logic Isa.Sv32

/-! ## Bits of a word -/

/-- A mask of the low byte only sees the low byte. -/
theorem opAnd_lowByte (w : BitVec 32) (m : BitVec 8) :
    opAnd w.toNat m.toNat = ((w.setWidth 8 &&& m).toNat : Int) := by
  have hval : (long w.toNat &&& long m.toNat).toNat = (w.setWidth 8 &&& m).toNat := by
    rw [BitVec.toNat_and, long_natCast (by omega), long_natCast (by omega), BitVec.toNat_and,
      BitVec.toNat_setWidth]
    apply Nat.eq_of_testBit_eq
    intro i
    simp only [Nat.testBit_and, Nat.testBit_mod_two_pow]
    by_cases hi : i < 8
    · simp [hi]
    · simp [hi, Nat.testBit_lt_two_pow (lt_of_lt_of_le m.isLt (Nat.pow_le_pow_right (by decide)
        (Nat.le_of_not_lt hi)))]
  rw [opAnd, toInt_eq_toNat (by rw [hval]; have := (w.setWidth 8 &&& m).isLt; omega), hval]

theorem getLsbD_lowByte (w : BitVec 32) {i : Nat} (hi : i < 8) :
    w.getLsbD i = (w.setWidth 8).getLsbD i := by
  rw [BitVec.getLsbD_setWidth]
  simp [hi]

theorem opAnd_bit (w : BitVec 32) {k : Nat} (hk : k < 32) :
    opAnd w.toNat (2 ^ k) = if w.getLsbD k then 2 ^ k else 0 := by
  have h := opAnd_field w.toNat k 1 (by omega)
  rw [show ((2 : Int) ^ 1 - 1) * 2 ^ k = 2 ^ k by ring] at h
  rw [h, ← BitVec.testBit_toNat, Nat.testBit_eq_decide_div_mod_eq]
  have hmod : ((w.toNat : Int) / 2 ^ k % 2 ^ 1) = ((w.toNat / 2 ^ k % 2 : Nat) : Int) := by
    push_cast; rfl
  rw [hmod]
  rcases Nat.mod_two_eq_zero_or_one (w.toNat / 2 ^ k) with h' | h' <;> simp [h']

/-! ## Checks of a PTE -/

/-- The flags of a PTE are in its low byte. -/
theorem Pte.flags (pte : Pte) :
    pte.v = (pte.setWidth 8).getLsbD 0 ∧ pte.r = (pte.setWidth 8).getLsbD 1 ∧
    pte.w = (pte.setWidth 8).getLsbD 2 ∧ pte.x = (pte.setWidth 8).getLsbD 3 ∧
    pte.u = (pte.setWidth 8).getLsbD 4 ∧ pte.a = (pte.setWidth 8).getLsbD 6 ∧
    pte.d = (pte.setWidth 8).getLsbD 7 :=
  ⟨getLsbD_lowByte pte (by decide), getLsbD_lowByte pte (by decide), getLsbD_lowByte pte (by decide),
    getLsbD_lowByte pte (by decide), getLsbD_lowByte pte (by decide), getLsbD_lowByte pte (by decide),
    getLsbD_lowByte pte (by decide)⟩

theorem validPte_eq (pte : Pte) :
    validPte (opAnd pte.toNat 0b1001111) =
      (!(!pte.v || (!pte.r && pte.w)) && (!(pte.r || pte.x) || pte.a)) := by
  obtain ⟨hv, hr, hw, hx, -, ha, -⟩ := Pte.flags pte
  rw [show (0b1001111 : Int) = (0b1001111#8).toNat from rfl, opAnd_lowByte, hv, hr, hw, hx, ha]
  generalize pte.setWidth 8 = b
  revert b
  decide

/-- The test for a leaf. -/
theorem opAnd_leaf (pte : Pte) : opAnd pte.toNat 0b1010 ≠ 0 ↔ (pte.r || pte.x) = true := by
  obtain ⟨-, hr, -, hx, -⟩ := Pte.flags pte
  rw [show (0b1010 : Int) = (0b1010#8).toNat from rfl, opAnd_lowByte, hr, hx]
  generalize pte.setWidth 8 = b
  revert b
  decide

theorem opAnd_dirty (pte : Pte) :
    opAnd pte.toNat 0b10001110 < 0b10000000 ↔ pte.d = false := by
  obtain ⟨-, -, -, -, -, -, hd⟩ := Pte.flags pte
  rw [show (0b10001110 : Int) = (0b10001110#8).toNat from rfl, opAnd_lowByte, hd]
  generalize pte.setWidth 8 = b
  revert b
  decide

/-! ## The fault of an access -/

def accessCause : Access → Int
  | .fetch => 1
  | .load => 5
  | .store => 7

def pageCause : Access → Int
  | .fetch => 12
  | .load => 13
  | .store => 15

/-- The encoding of the privilege mode. -/
def privilegeMode : Privilege → Int
  | .user => 0b00
  | .supervisor => 0b01

/-- The exception of a fault. -/
def faultTrap (access : Access) (va : BitVec 32) : Fault → Trap
  | .access => { mcause := accessCause access, mtval := va.toNat }
  | .page => { mcause := pageCause access, mtval := va.toNat }

theorem pageFault_faultTrap (access : Access) (va : BitVec 32) :
    pageFault (faultTrap access va .access) = faultTrap access va .page := by
  cases access <;> rfl

/-- A walk whose physical reads are made by `load_word`. -/
def runWalk (cfg : PageConfig) (access : Access) (va : BitVec 32) : Walk → Op Int
  | .done address => return address.toNat
  | .fault f => throw (faultTrap access va f)
  | .read address next => do
      let pte ← loadWord cfg address (faultTrap access va .access)
      runWalk cfg access va (next (BitVec.ofInt 32 pte))

/-- The hart in which an access is translated. -/
structure Translates (cfg : PageConfig) (s : Hart) (satp mstatus : BitVec 32)
    (p : Privilege) : Prop where
  satp : s.csr cfg satpCsr = satp.toNat
  mstatus : s.csrMstatus = mstatus.toNat
  mode : s.effectivePrivilegeMode = privilegeMode p

variable {cfg : PageConfig} {s s' : Hart} {satp mstatus va : BitVec 32} {p : Privilege} {access : Access}

theorem Translates.frame (h : Translates cfg s satp mstatus p) (hs : LoadFrame s s') :
    Translates cfg s' satp mstatus p := by
  obtain ⟨_, _, _, rfl, _⟩ := hs
  exact ⟨h.satp, h.mstatus, h.mode⟩

theorem step5PageFault_eq (h : Translates cfg s satp mstatus p) (pte : Pte) :
    step5PageFault s pte.toNat (accessCause access) = !userOk mstatus p access pte := by
  have hu : opAnd pte.toNat 0b10000 = if pte.u then 0b10000 else 0 := opAnd_bit pte (k := 4) (by decide)
  have hsum : opAnd mstatus.toNat 0b1000000000000000000 =
      if sum mstatus then 0b1000000000000000000 else 0 := opAnd_bit mstatus (k := 18) (by decide)
  simp only [step5PageFault, h.mstatus, h.mode, hu, hsum, userOk]
  generalize pte.u = u
  generalize sum mstatus = m
  clear hu hsum h
  cases p <;> cases access <;> revert u m <;> decide

theorem step5Mask_eq_zero (h : Translates cfg s satp mstatus p) (pte : Pte) :
    step5Mask s pte.toNat (accessCause access) = 0 ↔ permissionOk mstatus access pte = false := by
  have hmxr : opAnd (opShr mstatus.toNat 19) 0b1 = (mxr mstatus).toInt := by
    have hshr := opShr_eq mstatus.toNat 19 (by decide) (by omega) (by omega)
    have hand := opAnd_low (mstatus.toNat / 2 ^ 19) 1 (by decide)
    have hbit : mxr mstatus = decide (mstatus.toNat / 2 ^ 19 % 2 = 1) := by
      rw [mxr, ← BitVec.testBit_toNat, Nat.testBit_eq_decide_div_mod_eq]
    rw [hbit]
    push_cast at hshr hand
    rw [hshr, hand]
    rcases Nat.mod_two_eq_zero_or_one (mstatus.toNat / 2 ^ 19) with h' | h'
    · rw [decide_eq_false (by omega)]
      change _ = 0
      omega
    · rw [decide_eq_true h']
      change _ = 1
      omega
  obtain ⟨-, hr, hw, hx, -⟩ := Pte.flags pte
  simp only [step5Mask, h.mstatus, hmxr, permissionOk]
  rw [show (0b10001110 : Int) = (0b10001110#8).toNat from rfl, opAnd_lowByte, hr, hw, hx]
  generalize pte.setWidth 8 = b
  generalize mxr mstatus = m
  clear hr hw hx hmxr h
  cases access <;> revert b m <;> decide

/-! ## Physical addresses -/

theorem opAnd_ppn0 (pte : Pte) : opAnd pte.toNat 0xffc00 ≠ 0 ↔ pte.ppn0 ≠ 0 := by
  have h := opAnd_mask (b := 0xffc00) pte.toNat 10 10 (by decide) (by decide)
  rw [h, Pte.ppn0, ne_eq, ne_eq, not_iff_not, ← BitVec.toNat_inj, BitVec.extractLsb'_toNat,
    Nat.shiftRight_eq_div_pow]
  change _ ↔ _ = 0
  omega

/-- The table that a PTE points to. -/
theorem opShl_ppn (pte : Pte) : opShl (opAnd pte.toNat 0xfffffc00) 2 = pte.ppn.toNat * 4096 := by
  have h := opAnd_mask (b := 0xfffffc00) pte.toNat 10 22 (by decide) (by decide)
  have hs := opShl_eq (opAnd pte.toNat 0xfffffc00) 2 (by decide) (by omega) (by omega)
  push_cast at hs
  rw [hs, h, Pte.ppn, BitVec.extractLsb'_toNat, Nat.shiftRight_eq_div_pow]
  omega

theorem opAnd_vpn (va : BitVec 32) {i : Nat} (hi : i ≤ 1) :
    opAnd (opShr va.toNat ((i + 1) * 10)) 0b111111111100 = (vpn va i).toNat * 4 := by
  have hs := opShr_eq va.toNat ((i + 1) * 10) (by omega) (by omega) (by omega)
  have h := opAnd_mask (b := 0b111111111100) (va.toNat / 2 ^ ((i + 1) * 10)) 2 10 (by decide) (by decide)
  push_cast at hs h
  rw [hs, h, vpn, BitVec.extractLsb'_toNat, Nat.shiftRight_eq_div_pow]
  interval_cases i <;> simp <;> omega

theorem opAnd_root (satp : BitVec 32) : opAnd satp.toNat 0x3fffff = (root satp).toNat := by
  have h := opAnd_low satp.toNat 22 (by decide)
  rw [show (0x3fffff : Int) = 2 ^ 22 - 1 from rfl, h, root, BitVec.extractLsb'_toNat]
  simp

theorem mode_iff (satp : BitVec 32) : mode satp = decide (0x80000000 ≤ satp.toNat) := by
  rw [mode, ← BitVec.testBit_toNat, Nat.testBit_eq_decide_div_mod_eq, decide_eq_decide]
  omega

/-! ## The walk -/

theorem leafAddress_zero_toNat (va : BitVec 32) (pte : Pte) :
    (leafAddress va 0 pte).toNat = pte.toNat / 2 ^ 10 * 2 ^ 12 + va.toNat % 2 ^ 12 := by
  rw [leafAddress, if_pos rfl, BitVec.toNat_append, Pte.ppn, BitVec.extractLsb'_toNat,
    BitVec.extractLsb'_toNat, Nat.shiftRight_eq_div_pow, Nat.shiftRight_zero,
    ← Nat.shiftLeft_add_eq_or_of_lt (Nat.mod_lt _ (by decide)), Nat.shiftLeft_eq]
  omega

theorem leafAddress_succ_toNat (va : BitVec 32) (i : Nat) (pte : Pte) :
    (leafAddress va (i + 1) pte).toNat = pte.toNat / 2 ^ 20 * 2 ^ 22 + va.toNat % 2 ^ 22 := by
  rw [leafAddress, if_neg (by omega), BitVec.toNat_append, Pte.ppn1, BitVec.extractLsb'_toNat,
    BitVec.extractLsb'_toNat, Nat.shiftRight_eq_div_pow, Nat.shiftRight_zero,
    ← Nat.shiftLeft_add_eq_or_of_lt (Nat.mod_lt _ (by decide)), Nat.shiftLeft_eq]
  omega


/-- Step 8: the physical address, if it has at most 32 bits. -/
theorem leafAddress_lt (va : BitVec 32) {i : Nat} (pte : Pte) :
    (leafAddress va i pte).toNat < 2 ^ 32 ↔ opShl pte.toNat 2 ≤ 0xffffffff := by
  have hs := opShl_eq pte.toNat 2 (by decide) (by omega) (by omega)
  push_cast at hs
  rw [hs]
  cases i with
  | zero => rw [leafAddress_zero_toNat]; omega
  | succ i => rw [leafAddress_succ_toNat]; omega

theorem leafAddress_eq (va : BitVec 32) {i : Nat} (pte : Pte) (h : opShl pte.toNat 2 ≤ 0xffffffff) :
    (if ((i : Int) + 1) * 10 > 10 then
      opOr (opAnd va.toNat 0x3fffff) (opAnd (opShl pte.toNat 2) 0xffc00000)
      else opOr (opAnd va.toNat 0xfff) (opAnd (opShl pte.toNat 2) 0xfffff000)) =
        ((leafAddress va i pte).setWidth 32).toNat := by
  have hlt := (leafAddress_lt va (i := i) pte).mpr h
  have hs := opShl_eq pte.toNat 2 (by decide) (by omega) (by omega)
  push_cast at hs
  rw [hs] at h ⊢
  rw [BitVec.toNat_setWidth, Nat.mod_eq_of_lt hlt]
  cases i with
  | zero =>
      have hoff := opAnd_low va.toNat 12 (by decide)
      have hpage := opAnd_mask (b := 0xfffff000) (pte.toNat * 4) 12 20 (by decide) (by decide)
      push_cast at hoff hpage
      rw [if_neg (by decide), hoff, hpage,
        opOr_mul_add _ 12 (by decide) (by decide) (by omega) (by omega)
        (by omega) (by omega), leafAddress_zero_toNat]
      omega
  | succ i =>
      have hoff := opAnd_low va.toNat 22 (by decide)
      have hpage := opAnd_mask (b := 0xffc00000) (pte.toNat * 4) 22 10 (by decide) (by decide)
      push_cast at hoff hpage
      rw [if_pos (by push_cast; omega), hoff, hpage, opOr_mul_add _ 22 (by decide) (by decide) (by omega)
        (by omega) (by omega) (by omega), leafAddress_succ_toNat]
      omega

theorem translateLeaf_apply (pte nonlocal2 : Int) (trap : Trap) (s : Hart) :
    translateLeaf pte nonlocal2 trap s =
      if step5PageFault s pte trap.mcause = true then .error (pageFault trap) s
      else if step5Mask s pte trap.mcause = 0 then .error (pageFault trap) s
      else if nonlocal2 ≠ 10 ∧ opAnd pte 0xffc00 ≠ 0 then .error (pageFault trap) s
      else if trap.mcause = 7 ∧ opAnd pte 0b10001110 < 0b10000000 then .error (pageFault trap) s
      else if opShl pte 2 > 0xffffffff then .error trap s
      else .ok (if nonlocal2 > 10 then opOr (opAnd trap.mtval 0x3fffff) (opAnd (opShl pte 2) 0xffc00000)
        else opOr (opAnd trap.mtval 0xfff) (opAnd (opShl pte 2) 0xfffff000)) s := by
  simp only [translateLeaf]
  change EStateM.bind EStateM.get _ s = _
  simp only [EStateM.bind, EStateM.get]
  by_cases hu : step5PageFault s pte trap.mcause = true
  · rw [if_pos hu, if_pos hu]
    rfl
  rw [if_neg hu, if_neg hu]
  by_cases hm : step5Mask s pte trap.mcause = 0
  · rw [if_pos hm, if_pos hm]
    rfl
  rw [if_neg hm, if_neg hm]
  by_cases hi : nonlocal2 ≠ 10 ∧ opAnd pte 0xffc00 ≠ 0
  · rw [if_pos hi, if_pos hi]
    rfl
  rw [if_neg hi, if_neg hi]
  by_cases hd : trap.mcause = 7 ∧ opAnd pte 0b10001110 < 0b10000000
  · rw [if_pos hd, if_pos hd]
    rfl
  rw [if_neg hd, if_neg hd]
  by_cases ha : opShl pte 2 > 0xffffffff
  · rw [if_pos ha, if_pos ha]
    rfl
  rw [if_neg ha, if_neg ha]
  by_cases hn : nonlocal2 > 10
  · rw [if_pos hn, if_pos hn]
    rfl
  · rw [if_neg hn, if_neg hn]
    rfl

theorem translateLeaf_eq (h : Translates cfg s satp mstatus p) {i : Nat} (pte : Pte)
    (ha : pte.a = true) :
    translateLeaf pte.toNat ((i + 1) * 10) (faultTrap access va .access) s =
      runWalk cfg access va (leaf mstatus p access va i pte) s := by
  have huser : step5PageFault s pte.toNat (accessCause access) = !userOk mstatus p access pte :=
    step5PageFault_eq h pte
  have hperm : step5Mask s pte.toNat (accessCause access) = 0 ↔
      permissionOk mstatus access pte = false :=
    step5Mask_eq_zero h pte
  have hd : (accessCause access = 7 ∧ opAnd pte.toNat 0b10001110 < 0b10000000) ↔
      accessedOk access pte = false := by
    rw [opAnd_dirty, accessedOk, ha]
    cases access <;> simp [accessCause]
  have hi : ((i : Int) + 1) * 10 ≠ 10 ↔ i ≠ 0 := by omega
  have haddr : ¬(leafAddress va i pte).toNat < 2 ^ 32 ↔ opShl pte.toNat 2 > 0xffffffff := by
    rw [leafAddress_lt, not_le]
  have hpa := leafAddress_eq va (i := i) pte
  rw [translateLeaf_apply, pageFault_faultTrap]
  change (if step5PageFault s pte.toNat (accessCause access) = true then _
    else if step5Mask s pte.toNat (accessCause access) = 0 then _
    else if _ then _ else if accessCause access = 7 ∧ _ then _ else if _ then _ else _) = _
  rw [huser]
  simp only [hperm, hi, opAnd_ppn0, hd, ← haddr]
  unfold leaf
  cases userOk mstatus p access pte with
  | false => rfl
  | true =>
      cases permissionOk mstatus access pte with
      | false => rfl
      | true =>
          by_cases hsuper : i ≠ 0 ∧ pte.ppn0 ≠ 0
          · simp only [if_pos hsuper]
            rfl
          · simp only [if_neg hsuper]
            cases accessedOk access pte with
            | false => rfl
            | true =>
                by_cases hlt : (leafAddress va i pte).toNat < 2 ^ 32
                · simp only [hlt, not_true_eq_false, if_false]
                  change EStateM.Result.ok
                    (if _ then opOr (opAnd va.toNat _) _ else opOr (opAnd va.toNat _) _) s = _
                  rw [hpa ((leafAddress_lt va pte).mp hlt)]
                  rfl
                · simp only [hlt, not_false_eq_true, if_true]
                  rfl

/-- A PTE whose A bit is clear is a fault for every access. -/
theorem leaf_of_not_accessed {pte : Pte} {i : Nat} (ha : pte.a = false) :
    leaf mstatus p access va i pte = .fault .page := by
  simp only [leaf, accessedOk, ha, Bool.false_and, Bool.not_false, if_true, ite_self]

theorem ofInt_toNat {w : Int} (h : 0 ≤ w ∧ w < 2 ^ 32) : ((BitVec.ofInt 32 w).toNat : Int) = w := by
  rw [BitVec.toNat_ofInt, Int.toNat_of_nonneg (Int.emod_nonneg _ (by decide))]
  exact Int.emod_eq_of_lt h.1 h.2

/-- The checks after the read of a PTE. -/
theorem translateLevel_eq {i : Nat} (hi : i ≤ 1) {table : BitVec 22} {next : Int → Op Int}
    {next' : BitVec 22 → Walk} (h : Translates cfg s satp mstatus p)
    (hnext : ∀ s' (table' : BitVec 22), Translates cfg s' satp mstatus p →
      next (table'.toNat * 4096) s' = runWalk cfg access va (next' table') s') :
    translateLevel cfg (faultTrap access va .access) i (table.toNat * 4096) next s =
      runWalk cfg access va (.read (table.toNat * 4096 + (vpn va i).toNat * 4)
        (level mstatus p access va i next')) s := by
  have haddr : opAnd (opShr va.toNat ((i + 1) * 10)) 0b111111111100 + table.toNat * 4096 =
      ((table.toNat * 4096 + (vpn va i).toNat * 4 : Nat) : Int) := by
    rw [opAnd_vpn va hi]
    push_cast
    ring
  have hmode : s.effectivePrivilegeMode < 0b11 := by
    rw [h.mode]
    cases p <;> decide
  have hload := wp_and (loadWord_frame cfg ((table.toNat * 4096 + (vpn va i).toNat * 4 : Nat) : Int)
    (faultTrap access va .access) s) (loadWord_word cfg _ _ hmode)
  simp only [translateLevel, runWalk]
  change EStateM.bind (loadWord cfg (opAnd (opShr va.toNat _) _ + _) _) _ s = EStateM.bind _ _ s
  rw [haddr]
  unfold EStateM.bind
  cases hx : loadWord cfg ((table.toNat * 4096 + (vpn va i).toNat * 4 : Nat) : Int)
    (faultTrap access va .access) s with
  | error t s' => rfl
  | ok w s' =>
      obtain ⟨hframe, hword⟩ := wp_ok hload hx
      have h' := h.frame hframe
      obtain ⟨pte, rfl⟩ : ∃ pte : Pte, w = pte.toNat :=
        ⟨BitVec.ofInt 32 w, (ofInt_toNat hword).symm⟩
      have hpte : BitVec.ofInt 32 (BitVec.toNat pte : Int) = pte := by simp
      dsimp only
      rw [hpte, validPte_eq, pageFault_faultTrap]
      unfold level
      cases hinvalid : !pte.v || (!pte.r && pte.w) with
      | true => rfl
      | false =>
          cases hleaf : pte.r || pte.x with
          | false =>
              have : ¬opAnd pte.toNat 0b1010 ≠ 0 := by rw [opAnd_leaf, hleaf]; decide
              simp only [if_neg this]
              rw [opShl_ppn]
              exact hnext s' _ h'
          | true =>
              have : opAnd pte.toNat 0b1010 ≠ 0 := by rw [opAnd_leaf, hleaf]
              simp only [if_pos this]
              cases ha : pte.a with
              | false => rw [leaf_of_not_accessed ha]; rfl
              | true => exact translateLeaf_eq h' pte ha

theorem translateStep2_eq {i : Nat} (hi : i ≤ 1) (table : BitVec 22) {s : Hart}
    (h : Translates cfg s satp mstatus p) :
    translateStep2 cfg (faultTrap access va .access) i (table.toNat * 4096) s =
      runWalk cfg access va (walk mstatus p access va i table) s := by
  induction i generalizing table s with
  | zero =>
      refine translateLevel_eq hi h fun s' table' _ => ?_
      rw [pageFault_faultTrap]
      rfl
  | succ i ih => exact translateLevel_eq hi h fun s' table' h' => ih (by omega) table' h'

/-- The translation is the walk of the privileged architecture. -/
theorem translateVirtualAddress_translates (h : Translates cfg s satp mstatus p) :
    translateVirtualAddress cfg { mcause := accessCause access, mtval := va.toNat } s =
      runWalk cfg access va (Isa.Sv32.translate satp mstatus p access va) s := by
  simp only [translateVirtualAddress]
  change EStateM.bind EStateM.get _ s = _
  simp only [EStateM.bind, EStateM.get, h.satp, Isa.Sv32.translate, mode_iff]
  by_cases hbare : 0x80000000 ≤ satp.toNat
  · rw [if_neg (by omega), decide_eq_true hbare, opAnd_root]
    exact translateStep2_eq (by decide) _ h
  · rw [if_pos (by omega), decide_eq_false hbare]
    rfl

end Mlogv32.Cpu
