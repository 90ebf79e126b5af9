import Mlogv32.Cpu.Theorems.Decode

/-!
# PAUSE

FENCE finds PAUSE in the icache payload. The slow fetch leaves no immediate there.
-/

namespace Mlogv32.Cpu
open Mlog Isa

/-! ## Words -/

theorem encodeI_inj {n n' : BitVec 12} {rs1 rs1' rd rd' : Reg} {funct3 funct3' : BitVec 3}
    {opcode opcode' : BitVec 7} :
    encodeI n rs1 funct3 rd opcode = encodeI n' rs1' funct3' rd' opcode' ↔
      n = n' ∧ rs1 = rs1' ∧ funct3 = funct3' ∧ rd = rd' ∧ opcode = opcode' := by
  simp only [← BitVec.toNat_inj, encodeI, toNat_append_eq]
  omega

theorem exists_encodeI (w : Word) :
    ∃ n rs1 rd, w = encodeI n rs1 (w.extractLsb' 12 3) rd (w.extractLsb' 0 7) := by
  refine ⟨w.extractLsb' 20 12, w.extractLsb' 15 5, w.extractLsb' 7 5, ?_⟩
  apply BitVec.eq_of_toNat_eq
  simp only [encodeI, toNat_append_eq, toNat_extractLsb'_eq]
  omega

/-- PAUSE, a FENCE without operands. -/
def pauseWord : Word := encodeI 0b000000010000 0 0b000 0 opcodeMISC_MEM

/-- The FENCE.I with the fields of PAUSE. -/
def pauseFenceI : Word := encodeI 0b000000010000 0 0b001 0 opcodeMISC_MEM

/-- The words that FENCE handles. -/
def IsFence (w : Word) : Prop :=
  w.extractLsb' 0 7 = opcodeMISC_MEM ∧ (w.extractLsb' 12 3 = 0b000 ∨ w.extractLsb' 12 3 = 0b001)

/-! ## The handler -/

theorem fence_eq_pause {d : Fetched} : fence d = .pauseOneTick ↔ d.result % 2 ^ 42 = 16 := by
  have hlow : opAnd d.result 0x3ffffffffff = d.result % 2 ^ 42 := opAnd_low d.result 42 (by decide)
  rw [fence, hlow]
  split
  · rename_i hne
    exact iff_of_false nofun hne
  · rename_i heq
    exact iff_of_true rfl (not_not.mp heq)

theorem decode_fence (n : BitVec 12) (rs1 rd : Reg) {funct3 : BitVec 3}
    (hfunct3 : funct3 = 0b000 ∨ funct3 = 0b001) (imm : Int) :
    ∃ rs2, (decode (encodeI n rs1 funct3 rd opcodeMISC_MEM).toNat imm).imm = n.toNat ∧
      (decode (encodeI n rs1 funct3 rd opcodeMISC_MEM).toNat imm).result = registerBits rs2 rs1 rd ∧
      labels ((decode (encodeI n rs1 funct3 rd opcodeMISC_MEM).toNat imm).opId + 192) = some .FENCE ∧
      (decode (encodeI n rs1 funct3 rd opcodeMISC_MEM).toNat imm).opId ≠ 0 := by
  have hn : ((n.setWidth 32).toNat : Int) = n.toNat := by
    have hlt := n.isLt
    rw [BitVec.toNat_setWidth]
    omega
  rcases hfunct3 with rfl | rfl
  · have h := fence_of imm rd rs1 n
    exact ⟨_, h.imm.symm.trans hn, h.result, h.label, h.opId_ne⟩
  · have h := fenceI_of imm rd rs1 n
    exact ⟨_, h.imm.symm.trans hn, h.result, h.label, h.opId_ne⟩

theorem slowFetch_label (n : BitVec 12) (rs1 rd : Reg) {funct3 : BitVec 3}
    (hfunct3 : funct3 = 0b000 ∨ funct3 = 0b001) (imm : Int) :
    labels ((slowFetch (encodeI n rs1 funct3 rd opcodeMISC_MEM).toNat imm).opId + 192) =
      some .FENCE := by
  obtain ⟨-, -, -, hlabel, -⟩ := decode_fence n rs1 rd hfunct3 imm
  exact hlabel

/-- In the slow fetch `result` has no immediate. -/
theorem slowFetch_not_pause {n : BitVec 12} {rs1 rd : Reg} {funct3 : BitVec 3}
    (hfunct3 : funct3 = 0b000 ∨ funct3 = 0b001) (imm : Int) :
    fence (slowFetch (encodeI n rs1 funct3 rd opcodeMISC_MEM).toNat imm) ≠ .pauseOneTick := by
  obtain ⟨rs2, -, hresult, -⟩ := decode_fence n rs1 rd hfunct3 imm
  rw [Ne, fence_eq_pause]
  change ¬(decode _ imm).result % 2 ^ 42 = 16
  rw [hresult, registerBits]
  omega

/-- In the icache payload PAUSE is told apart by its operands, not by funct3. -/
theorem readIcache_pause {n : BitVec 12} {rs1 rd : Reg} {funct3 : BitVec 3}
    (hfunct3 : funct3 = 0b000 ∨ funct3 = 0b001) (imm : Int) :
    fence (readIcache (toDouble
      (decode (encodeI n rs1 funct3 rd opcodeMISC_MEM).toNat imm).payload)) = .pauseOneTick ↔
      n = 0b000000010000 ∧ rs1 = 0 ∧ rd = 0 := by
  obtain ⟨rs2, himm, hresult, -, hne⟩ := decode_fence n rs1 rd hfunct3 imm
  have hwf := decode_wellFormed (encodeI n rs1 funct3 rd opcodeMISC_MEM) imm
  have hpayload := hwf.payload_eq
  rw [hwf.low_eq hne, himm, hresult, registerBits] at hpayload
  rw [fence_eq_pause, toDouble_of_exact hwf.exact]
  change (decode _ imm).payload % 2 ^ 42 = 16 ↔ _
  have hn := n.isLt
  have hrs1 := rs1.isLt
  have hrd := rd.isLt
  rw [hpayload, ← BitVec.toNat_inj, ← BitVec.toNat_inj, ← BitVec.toNat_inj]
  change _ ↔ n.toNat = 16 ∧ rs1.toNat = 0 ∧ rd.toNat = 0
  omega

theorem execute_fence {cfg : Config} {d : Fetched} {s : Hart} {rs1 rs2 : Int}
    (hlabel : labels (d.opId + 192) = some .FENCE) :
    execute cfg d rs1 rs2 s = .ok .pauseOneTick s ↔ fence d = .pauseOneTick := by
  rw [execute_eq cfg rs1 rs2 hlabel]
  change EStateM.Result.ok (fence d) s = .ok .pauseOneTick s ↔ _
  rw [EStateM.Result.ok.injEq, and_iff_left rfl]

/-! ## The two paths -/

/-- The slow fetch misses PAUSE, and the icache takes a FENCE.I with the operands of PAUSE for it.
All other words that FENCE handles pause on both paths exactly if they are PAUSE. -/
theorem pause_iff (cfg : Config) {w : Word} (hw : IsFence w) (s : Hart) (rs1 rs2 imm : Int) :
    ((execute cfg (slowFetch w.toNat imm) rs1 rs2 s = .ok .pauseOneTick s ↔ w = pauseWord) ↔
      w ≠ pauseWord) ∧
    ((execute cfg (readIcache (toDouble (decode w.toNat imm).payload)) rs1 rs2 s = .ok .pauseOneTick s ↔
      w = pauseWord) ↔ w ≠ pauseFenceI) := by
  obtain ⟨hopcode, hfunct3⟩ := hw
  obtain ⟨n, r1, rd, hword⟩ := exists_encodeI w
  rw [hopcode] at hword
  generalize w.extractLsb' 12 3 = funct3 at hfunct3 hword
  subst hword
  have hlabel := slowFetch_label n r1 rd hfunct3 imm
  have hwf := decode_wellFormed (encodeI n r1 funct3 rd opcodeMISC_MEM) imm
  have hfast : (readIcache (toDouble
    (decode (encodeI n r1 funct3 rd opcodeMISC_MEM).toNat imm).payload)).opId =
      (decode (encodeI n r1 funct3 rd opcodeMISC_MEM).toNat imm).opId := by
    rw [toDouble_of_exact hwf.exact, hwf.readIcache_opId]
  rw [execute_fence hlabel, execute_fence (by rw [hfast]; exact hlabel), readIcache_pause hfunct3,
    pauseWord, pauseFenceI, Ne, Ne, encodeI_inj, encodeI_inj,
    iff_false_left (slowFetch_not_pause hfunct3 imm)]
  refine ⟨Iff.rfl, ?_⟩
  rcases hfunct3 with rfl | rfl
  · simp
  · simp

/-- `fence rw, rw`. -/
def fenceRwRw : Word := encodeI 0b000000110011 0 0b000 0 opcodeMISC_MEM

theorem pause_iff_fenceRwRw :
    execute (smallBuild fun _ _ => none) (slowFetch fenceRwRw.toNat 0) 0 0 bareHart ≠
      .ok .pauseOneTick bareHart := by
  have hne : fenceRwRw ≠ pauseWord := by decide
  have hpause := pause_iff (smallBuild fun _ _ => none) (w := fenceRwRw) ⟨rfl, Or.inl rfl⟩ bareHart 0 0 0
  exact fun h => hne ((hpause.1.mpr hne).mp h)

/-- PAUSE does not pause after a slow fetch. -/
theorem slowFetch_misses_pause : IsFence pauseWord ∧
    ¬(execute (smallBuild fun _ _ => none) (slowFetch pauseWord.toNat 0) 0 0 bareHart =
      .ok .pauseOneTick bareHart ↔
      pauseWord = pauseWord) := by
  refine ⟨⟨rfl, Or.inl rfl⟩, fun h => ?_⟩
  have hlabel := slowFetch_label 0b000000010000 0 0 (Or.inl rfl) 0
  exact slowFetch_not_pause (Or.inl rfl) 0 ((execute_fence hlabel).mp (h.mpr rfl))

end Mlogv32.Cpu
