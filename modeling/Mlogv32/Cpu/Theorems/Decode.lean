import Mlogv32.Cpu.Controller
import Mlogv32.Cpu.Lemmas.Illegal
import Mlogv32.Cpu.Lemmas.Load
import Mlogv32.Cpu.Lemmas.Trap

/-!
# Decoding and dispatch

The fetch through the icache and the slow fetch agree, every instruction reaches its handler, and a
word that is no instruction raises an exception, with the exceptions that `AcceptsUndefined` lists.
-/

namespace Mlogv32.Cpu
open Mlog Isa Logic

/-! ## The two fetch paths -/

/-- The fields that the two paths unpack from two decodings of a word. -/
theorem unpack_agree {d d' : Decoded} (hwf : d.WellFormed) (hagree : d.Agree d') :
    (readIcache d.payload).opId = d'.opId ∧
      (d'.opId ≠ 0 →
        (readIcache d.payload).rdId = (unpackRegisters d'.opId d'.imm d'.result).rdId ∧
          (readIcache d.payload).rs1Id = (unpackRegisters d'.opId d'.imm d'.result).rs1Id ∧
          (readIcache d.payload).rs2Id = (unpackRegisters d'.opId d'.imm d'.result).rs2Id ∧
          (hasImm d'.opId → (readIcache d.payload).imm = d'.imm)) := by
  have hop : (readIcache d.payload).opId = d'.opId := by rw [hwf.readIcache_opId, hagree.opId]
  refine ⟨hop, fun hne => ?_⟩
  have hne' : d.opId ≠ 0 := by rwa [hagree.opId]
  obtain ⟨hrd, hrs1, hrs2⟩ := hwf.readIcache_registers hne'
  rw [hagree.result] at hrd hrs1 hrs2
  refine ⟨hrd, hrs1, hrs2, fun himm => ?_⟩
  rw [hwf.readIcache_imm hne', hagree.imm (by rwa [hagree.opId])]

/-- The slot that a store or MLOGSYS writes for a word is read back as the slow fetch decodes the
word. The two decodings may start with different values in `imm`. -/
theorem readIcache_eq_slowFetch (w : Word) (imm imm' : Int) :
    let payload := (decode w.toNat imm).payload
    let fast := readIcache (toDouble payload)
    let slow := slowFetch w.toNat imm'
    (-2 ^ 53 ≤ payload ∧ payload ≤ 2 ^ 53 ∧ toDouble payload = payload) ∧
      (fast.opId = slow.opId ∧ -64 ≤ fast.opId ∧ fast.opId ≤ 63) ∧
      (slow.opId ≠ 0 →
        fast.rdId = slow.rdId ∧ fast.rs1Id = slow.rs1Id ∧ fast.rs2Id = slow.rs2Id ∧
          (hasImm slow.opId → fast.imm = slow.imm)) ∧
      (∀ i : Instr, i.encode = w → slow.opId ≠ 0 ∧ (i.imm.isSome → fast.imm = slow.imm)) := by
  have hwf := decode_wellFormed w imm
  have hdouble := toDouble_of_exact hwf.exact
  obtain ⟨hop, hfields⟩ := unpack_agree hwf (decode_agree w imm imm')
  simp only [hdouble, slowFetch_eq, unpackRegisters_opId, unpackRegisters_imm]
  refine ⟨⟨hwf.exact.1, hwf.exact.2, trivial⟩, ⟨hop, ?_, ?_⟩, hfields, ?_⟩
  · rw [hwf.readIcache_opId]
    exact hwf.opId_ge
  · rw [hwf.readIcache_opId]
    exact hwf.opId_le
  · intro i hi
    obtain ⟨_, _, _, hof⟩ := decode_encode i imm
    obtain ⟨_, _, _, hof'⟩ := decode_encode i imm'
    rw [hi] at hof hof'
    refine ⟨hof'.opId_ne, fun himm => ?_⟩
    obtain ⟨v, hv⟩ := Option.isSome_iff_exists.mp himm
    have h := hof.imm
    have h' := hof'.imm
    rw [hv, Option.elim_some] at h h'
    rw [hwf.readIcache_imm hof.opId_ne, ← h, h']

/-! ## Legal words -/

theorem priv_mret (mode : Int) :
    priv (0b001100000010 : Word).toNat mode = if mode < 0b11 then .ILLEGAL_OP else .MRET := by
  have hshr : opShr 770 5 = 24 := by decide
  change priv 770 mode = _
  rw [priv, if_neg (by decide), if_neg (by decide), if_neg (by decide), hshr,
    if_neg (by decide : ¬(770 : Int) = 0b000100000010), if_neg (by decide : ¬(24 : Int) = 0b0001001),
    if_pos rfl]
  split_ifs
  · rfl
  · omega
  · rfl
  · rfl

theorem priv_sfenceVma (rs2 : Reg) (mode : Int) :
    priv ((0b0001001#7 ++ rs2).setWidth 32).toNat mode =
      if mode < 0b01 then .ILLEGAL_OP else .SFENCE_VMA := by
  have h2 := rs2.isLt
  have himm : (((0b0001001#7 ++ rs2).setWidth 32).toNat : Int) = 288 + rs2.toNat := by
    rw [BitVec.toNat_setWidth, toNat_append_eq, BitVec.toNat_ofNat]
    omega
  have hshr : opShr (288 + rs2.toNat) 5 = 9 := by
    rw [show opShr (288 + rs2.toNat) 5 = (288 + rs2.toNat) / 2 ^ 5 from
      opShr_eq _ 5 (by decide) (by omega) (by omega)]
    omega
  rw [himm, priv, if_neg (by omega), if_neg (by omega), if_neg (by omega), hshr,
    if_neg (by omega : ¬(288 + (rs2.toNat : Int)) = 0b000100000010), if_pos rfl]

theorem Decoded.Of.runs {d : Decoded} {i : Instr} {rs2 rs1 rd : Reg} (h : d.Of i rs2 rs1 rd)
    {f : Fetched} (hop : f.opId = d.opId) (himm : f.imm = d.imm) (hrd : f.rdId = rd.toNat)
    (hrs1 : f.rs1Id = rs1.toNat) (hrs2 : f.rs2Id = rs2.toNat) : f.Runs i := by
  have himm' : ∀ v ∈ i.imm, f.imm = v.toNat := by
    intro v hv
    have h' := h.imm
    rw [Option.mem_def.mp hv] at h'
    exact himm.trans h'.symm
  have hreg : ∀ {o : Option Reg} {r : Reg}, o.getD r = r → ∀ r' ∈ o, r' = r := by
    intro o r ho r' hr'
    rw [Option.mem_def.mp hr'] at ho
    exact ho
  refine ⟨hop ▸ h.label, fun r hr => ?_, fun r hr => ?_, fun r hr => ?_, himm', ?_⟩
  · rw [hreg h.rd r hr, hrd]
  · rw [hreg h.rs1 r hr, hrs1]
  · rw [hreg h.rs2 r hr, hrs2]
  · intro p hp mode hmode
    cases i with
    | ecall =>
        cases hp
        rw [himm' _ rfl, if_neg (by simpa using hmode)]
        rfl
    | ebreak =>
        cases hp
        rw [himm' _ rfl, if_neg (by simpa using hmode)]
        rfl
    | wfi =>
        cases hp
        rw [himm' _ rfl, if_neg (by simpa using hmode)]
        rfl
    | sret =>
        cases hp
        rw [himm' _ rfl]
        rfl
    | mret =>
        cases hp
        rw [himm' _ rfl]
        exact priv_mret mode
    | sfenceVma rs1' rs2' =>
        cases hp
        rw [himm' _ rfl]
        exact priv_sfenceVma rs2' mode
    | _ => cases hp

theorem slowFetch_runs (i : Instr) (imm : Int) : (slowFetch i.encode.toNat imm).Runs i := by
  obtain ⟨rs2, rs1, rd, hof⟩ := decode_encode i imm
  have hregs := unpackRegisters_registerBits rs2 rs1 rd (decode i.encode.toNat imm).opId
    (decode i.encode.toNat imm).imm
  rw [slowFetch, hof.result, hregs]
  exact hof.runs rfl rfl rfl rfl rfl

theorem readIcache_runs (i : Instr) (imm : Int) :
    (readIcache (toDouble (decode i.encode.toNat imm).payload)).Runs i := by
  obtain ⟨rs2, rs1, rd, hof⟩ := decode_encode i imm
  have hwf := decode_wellFormed i.encode imm
  have hregs := unpackRegisters_registerBits rs2 rs1 rd (decode i.encode.toNat imm).opId
    (decode i.encode.toNat imm).imm
  rw [toDouble_of_exact hwf.exact]
  obtain ⟨hrd, hrs1, hrs2⟩ := hwf.readIcache_registers hof.opId_ne
  rw [hof.result] at hrd hrs1 hrs2
  exact hof.runs hwf.readIcache_opId (hwf.readIcache_imm hof.opId_ne)
    (hrd.trans (congrArg Fetched.rdId hregs)) (hrs1.trans (congrArg Fetched.rs1Id hregs))
    (hrs2.trans (congrArg Fetched.rs2Id hregs))

/-- Every instruction reaches its handler with its registers and its immediate, through both fetch
paths. -/
theorem decode_dispatch (i : Instr) (imm : Int) :
    (slowFetch i.encode.toNat imm).Runs i ∧
      (readIcache (toDouble (decode i.encode.toNat imm).payload)).Runs i :=
  ⟨slowFetch_runs i imm, readIcache_runs i imm⟩

/-! ## Illegal words -/

/-- The outputs of a fetch of a word, through the icache or not. -/
def FetchOf (w : Word) (d : Fetched) : Prop :=
  ∃ imm, d = slowFetch w.toNat imm ∨ d = readIcache (toDouble (decode w.toNat imm).payload)

theorem FetchOf.runs {i : Instr} {d : Fetched} (h : FetchOf i.encode d) : d.Runs i := by
  obtain ⟨imm, rfl | rfl⟩ := h
  · exact slowFetch_runs i imm
  · exact readIcache_runs i imm

theorem FetchOf.opId {w : Word} {d : Fetched} (h : FetchOf w d) (imm : Int) :
    d.opId = (decode w.toNat imm).opId := by
  obtain ⟨imm', rfl | rfl⟩ := h
  · rw [slowFetch_eq, unpackRegisters_opId, (decode_agree w imm' imm).opId]
  · have hwf := decode_wellFormed w imm'
    rw [toDouble_of_exact hwf.exact, hwf.readIcache_opId, (decode_agree w imm' imm).opId]

theorem FetchOf.imm {w : Word} {d : Fetched} (h : FetchOf w d) (imm : Int)
    (hne : (decode w.toNat imm).opId ≠ 0) (himm : hasImm (decode w.toNat imm).opId) :
    d.imm = (decode w.toNat imm).imm := by
  obtain ⟨imm', rfl | rfl⟩ := h
  · have hagree := decode_agree w imm' imm
    rw [slowFetch_eq, unpackRegisters_imm, hagree.imm (by rwa [hagree.opId])]
  · have hwf := decode_wellFormed w imm'
    have hagree := decode_agree w imm' imm
    rw [toDouble_of_exact hwf.exact, hwf.readIcache_imm (by rwa [hagree.opId]),
      hagree.imm (by rwa [hagree.opId])]

/-- The dispatch of a fetched word raises an illegal-instruction exception. Neither the dispatch nor
the trap writes a register or a memory processor. -/
structure RaisesIllegal (cfg : Config) (s : Hart) (d : Fetched) : Prop where
  raises : stepPoint cfg (.execute d (s.registers d.rs1Id) (s.registers d.rs2Id)) s =
    (.trap { mcause := 2, mtval := 0 }, s)
  registers : (trap cfg { mcause := 2, mtval := 0 } s).2.registers = s.registers
  memory : ∀ t, t ≠ cfg.csrs → (trap cfg { mcause := 2, mtval := 0 } s).2.procs t = s.procs t

/-- The words that are no instruction but are executed in state `s`: a JALR with a reserved funct3,
an LR.W with an rs2, privileged instructions with register fields and an MLOGSYS with an rd. -/
inductive AcceptsUndefined (s : Hart) : Word → Prop
  | jalr (n : BitVec 12) (rs1 : Reg) (funct3 : BitVec 3) (rd : Reg) (h : funct3 ≠ 0) :
      AcceptsUndefined s (encodeI n rs1 funct3 rd 0b1100111)
  | lr (order : BitVec 2) (rs2 rs1 rd : Reg) (h : rs2 ≠ 0) :
      AcceptsUndefined s (encodeR (0b00010#5 ++ order) rs2 rs1 0b010 rd opcodeAMO)
  /-- ECALL, EBREAK and WFI. -/
  | unprivileged (n : BitVec 12) (rs1 rd : Reg)
      (hn : n = 0b000000000000 ∨ n = 0b000000000001 ∨ n = 0b000100000101)
      (h : rs1 ≠ 0 ∨ rd ≠ 0) : AcceptsUndefined s (encodeI n rs1 0b000 rd opcodeSYSTEM)
  | sret (rs1 rd : Reg) (h : rs1 ≠ 0 ∨ rd ≠ 0) (hmode : 0b01 ≤ s.privilegeMode)
      (htsr : ¬(s.privilegeMode = 0b01 ∧ opAnd s.csrMstatus 0b10000000000000000000000 ≠ 0)) :
      AcceptsUndefined s (encodeI 0b000100000010 rs1 0b000 rd opcodeSYSTEM)
  | sfenceVma (rs2 rs1 rd : Reg) (h : rd ≠ 0) (hmode : 0b01 ≤ s.privilegeMode)
      (htvm : ¬(s.privilegeMode = 0b01 ∧ opAnd s.csrMstatus 0b100000000000000000000 ≠ 0)) :
      AcceptsUndefined s (encodeI (0b0001001#7 ++ rs2) rs1 0b000 rd opcodeSYSTEM)
  | mret (rs1 rd : Reg) (h : rs1 ≠ 0 ∨ rd ≠ 0) (hmode : 0b11 ≤ s.privilegeMode) :
      AcceptsUndefined s (encodeI 0b001100000010 rs1 0b000 rd opcodeSYSTEM)
  | mlogsys (n : BitVec 12) (rs1 rd : Reg) (h : rd ≠ 0) (hmode : 0b11 ≤ s.privilegeMode) :
      AcceptsUndefined s (encodeI n rs1 0b000 rd 0b0001011)

theorem raisesIllegal_iff {cfg : Config} {s : Hart} {d : Fetched} :
    RaisesIllegal cfg s d ↔
      execute cfg d (s.registers d.rs1Id) (s.registers d.rs2Id) s = .error illegalOp s := by
  constructor
  · intro h
    have hraises := h.raises
    rw [stepPoint] at hraises
    cases hx : execute cfg d (s.registers d.rs1Id) (s.registers d.rs2Id) s with
    | ok e s' =>
        rw [hx] at hraises
        cases hraises
    | error t s' =>
        rw [hx] at hraises
        simp only [outcome, Prod.mk.injEq, Point.trap.injEq] at hraises
        obtain ⟨rfl, rfl⟩ := hraises
        rfl
  · intro h
    refine ⟨?_, trap_registers cfg _ s, fun t ht => trap_procs_of_ne cfg _ s ht⟩
    rw [stepPoint, h]
    rfl

theorem label_zero {opId : Int} (h : opId = 0) : labels (opId + 192) = some .ILLEGAL_OP := by
  subst h
  exact labels_opId (by decide) (by decide)

theorem raisesIllegal_of_opId {cfg : Config} {s : Hart} {d : Fetched} (h : d.opId = 0) :
    RaisesIllegal cfg s d := by
  rw [raisesIllegal_iff, execute_eq cfg _ _ (label_zero h)]
  rfl

theorem opOr_eight_ne (a : Int) : opOr 8 a ≠ 2 := by
  intro h
  have hlong : long 8 ||| long a = 2#64 := by
    rw [← BitVec.ofInt_toInt (x := long 8 ||| long a)]
    exact congrArg (BitVec.ofInt 64) h
  have hbit := congrArg (BitVec.getLsbD · 3) hlong
  rw [BitVec.getLsbD_or, show (long 8).getLsbD 3 = true by decide, Bool.true_or] at hbit
  exact absurd hbit (by decide)

theorem privHandler_error_iff (cfg : Config) (imm : Int) (s : Hart) :
    privHandler cfg imm s = .error illegalOp s ↔
      (priv imm s.privilegeMode = .ILLEGAL_OP ∨
        (priv imm s.privilegeMode = .SRET ∧ s.privilegeMode = 0b01 ∧
          opAnd s.csrMstatus 0b10000000000000000000000 ≠ 0) ∨
        (priv imm s.privilegeMode = .SFENCE_VMA ∧ s.privilegeMode = 0b01 ∧
          opAnd s.csrMstatus 0b100000000000000000000 ≠ 0)) := by
  rw [privHandler, bind_get]
  cases hp : priv imm s.privilegeMode with
  | ILLEGAL_OP => exact ⟨fun _ => Or.inl rfl, fun _ => rfl⟩
  | ECALL =>
      refine ⟨fun h => ?_, fun h => by simp at h⟩
      injection h with h _
      injection h with h _
      exact absurd h (opOr_eight_ne _)
  | EBREAK =>
      refine ⟨fun h => ?_, fun h => by simp at h⟩
      injection h with h _
      injection h with h _
      exact absurd h (by decide)
  | WFI =>
      refine ⟨fun h => ?_, fun h => by simp at h⟩
      cases h
  | SRET =>
      by_cases hc : s.privilegeMode = 0b01 ∧ opAnd s.csrMstatus 0b10000000000000000000000 ≠ 0
      · refine ⟨fun _ => Or.inr (Or.inl ⟨rfl, hc⟩), fun _ => ?_⟩
        apply eq_error_of_wp
        simp only [sret, wp_bind, wp_get, wp_ite, wp_throw]
        exact ⟨fun _ => ⟨trivial, trivial⟩, fun h => absurd hc h⟩
      · refine ⟨fun h => ?_, fun h => ?_⟩
        · have hok : wp (sret cfg) (fun _ _ => True) (fun _ _ => False) s := by
            simp only [sret, wp_bind, wp_get, wp_ite, wp_throw, wp_set, wp_pure]
            exact ⟨fun h => hc h, fun _ => trivial⟩
          exact (wp_error hok h).elim
        · simp at h
          exact absurd ⟨h.1, h.2⟩ hc
  | SFENCE_VMA =>
      by_cases hc : s.privilegeMode = 0b01 ∧ opAnd s.csrMstatus 0b100000000000000000000 ≠ 0
      · refine ⟨fun _ => Or.inr (Or.inr ⟨rfl, hc⟩), fun _ => ?_⟩
        apply eq_error_of_wp
        simp only [sfenceVma, wp_bind, wp_get, wp_ite, wp_throw]
        exact ⟨fun _ => ⟨trivial, trivial⟩, fun h => absurd hc h⟩
      · refine ⟨fun h => ?_, fun h => ?_⟩
        · have hok : wp sfenceVma (fun _ _ => True) (fun _ _ => False) s := by
            simp only [sfenceVma, wp_bind, wp_get, wp_ite, wp_throw, wp_set, wp_pure]
            exact ⟨fun h => hc h, fun _ => trivial⟩
          exact (wp_error hok h).elim
        · simp at h
          exact absurd ⟨h.1, h.2⟩ hc
  | MRET =>
      refine ⟨fun h => ?_, fun h => by simp at h⟩
      cases h

/-! ### Words that the decoder takes -/

theorem FetchOf.jalr {n : BitVec 12} {rs1 : Reg} {funct3 : BitVec 3} {rd : Reg} {d : Fetched}
    (h : FetchOf (encodeI n rs1 funct3 rd 0b1100111) d) : labels (d.opId + 192) = some .JALR := by
  have hd : (decode (encodeI n rs1 funct3 rd 0b1100111).toNat 0).opId = -61 := by
    rw [encodeI_eq]
    exact congrArg Decoded.opId (decode_JALR _ _ _ _ _ 0)
  rw [h.opId 0, hd]
  exact labels_opId (by decide) (by decide)

theorem FetchOf.lr {order : BitVec 2} {rs2 rs1 rd : Reg} {d : Fetched}
    (h : FetchOf (encodeR (0b00010#5 ++ order) rs2 rs1 0b010 rd opcodeAMO) d) :
    labels (d.opId + 192) = some .LR_W := by
  have hd : (decode (encodeR (0b00010#5 ++ order) rs2 rs1 0b010 rd opcodeAMO).toNat 0).opId = -45 :=
    congrArg Decoded.opId ((decode_AMO _ _ _ _ _ 0).trans (decodeAMO_funct5 0 rd rs1 rs2 _ order))
  rw [h.opId 0, hd]
  exact labels_opId (by decide) (by decide)

theorem FetchOf.priv {n : BitVec 12} {rs1 rd : Reg} {d : Fetched}
    (h : FetchOf (encodeI n rs1 0b000 rd opcodeSYSTEM) d) :
    labels (d.opId + 192) = some .PRIV ∧ d.imm = n.toNat := by
  have hn := n.isLt
  have hd : decode (encodeI n rs1 0b000 rd opcodeSYSTEM).toNat 0 =
      endDecode (-12) n.toNat (registerBits (n.extractLsb' 0 5) rs1 rd) := by
    rw [encodeI_eq, ← funct12_eq]
    exact decode_SYSTEM _ _ _ _ _ 0
  have hop : d.opId = -12 := by rw [h.opId 0, hd]; rfl
  refine ⟨hop ▸ labels_opId (by decide) (by decide), ?_⟩
  rw [h.imm 0 (by rw [hd]; exact (by decide : (-12 : Int) ≠ 0)) (by rw [hd]; rfl), hd]
  exact opAnd_word_natCast (by omega)

theorem FetchOf.mlogsys {n : BitVec 12} {rs1 rd : Reg} {d : Fetched}
    (h : FetchOf (encodeI n rs1 0b000 rd 0b0001011) d) : labels (d.opId + 192) = some .MLOGSYS := by
  have hd : (decode (encodeI n rs1 0b000 rd 0b0001011).toNat 0).opId = 1 := by
    rw [encodeI_eq]
    exact congrArg Decoded.opId (decode_custom_0 _ _ _ _ _ 0)
  rw [h.opId 0, hd]
  exact labels_opId (by decide) (by decide)

/-- The exceptions of LR.W are those of its load. -/
theorem lrW_not_illegal (cfg : Config) (d : Fetched) (rs1 : Int) (s : Hart) :
    lrW cfg d rs1 s ≠ .error illegalOp s := by
  intro h
  have hwp : wp (lrW cfg d rs1) (fun _ _ => True) (fun t _ => t.mcause ≠ 2) s := by
    simp only [lrW, atomicValidateAddress, wp_bind, wp_get, wp_ite, wp_throw, wp_set, wp_pure]
    refine ⟨fun _ => by decide, fun _ => ⟨fun _ => ?_, fun _ => ?_⟩⟩
    · refine wp_mono (translateVirtualAddress_frame cfg _ s) (fun a s' _ => ?_) (fun t s' ht => ?_)
      · exact ⟨fun _ => by decide, fun _ => ⟨fun _ => by decide, fun _ => trivial⟩⟩
      · rcases ht.1 with rfl | rfl
        · exact (by decide : (4 + 1 : Int) ≠ 2)
        · exact (by decide : max ((4 + 1 : Int) + 8) 12 ≠ 2)
    · exact ⟨fun _ => by decide, fun _ => ⟨fun _ => by decide, fun _ => trivial⟩⟩
  exact wp_error hwp h rfl

theorem jalr_not_illegal (rdId rs1 imm : Int) (s : Hart) :
    jalr rdId rs1 imm s ≠ .error illegalOp s := by
  intro h
  have hwp : wp (jalr rdId rs1 imm) (fun _ _ => True) (fun t _ => t.mcause ≠ 2) s := by
    simp only [jalr, unconditionalJump, wp_bind, wp_get, wp_ite, wp_throw, wp_set, wp_pure]
    refine ⟨fun _ => by decide, fun _ => ⟨fun _ => trivial, fun _ => ⟨fun _ => trivial, fun _ => ?_⟩⟩⟩
    cases s.icacheVar with
    | null => exact trivial
    | num n => exact trivial
    | var i => exact trivial
  exact wp_error hwp h rfl

/-- Outside M-mode MLOGSYS is illegal. -/
theorem mlogsys_error_iff (cfg : Config) (rs1 : Int) (s : Hart) :
    mlogsys cfg rs1 s = .error illegalOp s ↔ s.privilegeMode < 0b11 := by
  constructor
  · intro h
    by_contra hmode
    have hwp : wp (mlogsys cfg rs1) (fun _ _ => True) (fun _ _ => False) s := by
      simp only [mlogsys, wp_bind, wp_get, wp_ite, wp_throw, wp_set, wp_pure]
      exact ⟨fun h => hmode h, fun _ => trivial⟩
    exact wp_error hwp h
  · intro hmode
    apply eq_error_of_wp
    simp only [mlogsys, wp_bind, wp_get, wp_ite, wp_throw]
    exact ⟨fun _ => ⟨trivial, trivial⟩, fun h => absurd hmode h⟩

/-- The dispatch of PRIV, read backwards. -/
theorem priv_cases (n : BitVec 12) (mode : Int) :
    priv n.toNat mode = .ILLEGAL_OP ∨
      (priv n.toNat mode = .ECALL ∧ n = 0b000000000000) ∨
      (priv n.toNat mode = .EBREAK ∧ n = 0b000000000001) ∨
      (priv n.toNat mode = .WFI ∧ n = 0b000100000101) ∨
      (priv n.toNat mode = .SRET ∧ n = 0b000100000010 ∧ 0b01 ≤ mode) ∨
      (priv n.toNat mode = .SFENCE_VMA ∧ n.extractLsb' 5 7 = 0b0001001 ∧ 0b01 ≤ mode) ∨
      (priv n.toNat mode = .MRET ∧ n = 0b001100000010 ∧ 0b11 ≤ mode) := by
  have hn := n.isLt
  have heq : ∀ k : Nat, (n.toNat : Int) = k → k < 4096 → n = BitVec.ofNat 12 k := by
    intro k hk hlt
    apply BitVec.eq_of_toNat_eq
    rw [BitVec.toNat_ofNat, Nat.mod_eq_of_lt hlt]
    exact_mod_cast hk
  have hshr : opShr n.toNat 5 = (n.extractLsb' 5 7).toNat := by
    rw [show opShr n.toNat 5 = n.toNat / 2 ^ 5 from opShr_eq _ 5 (by decide) (by omega) (by omega),
      toNat_extractLsb'_eq]
    omega
  unfold priv
  rw [hshr]
  split_ifs with h0 h1 h2 h3 h4 h5 h6 h7
  · exact Or.inr (Or.inl ⟨rfl, heq 0 h0 (by decide)⟩)
  · exact Or.inr (Or.inr (Or.inl ⟨rfl, heq 1 h1 (by decide)⟩))
  · exact Or.inr (Or.inr (Or.inr (Or.inl ⟨rfl, heq 0b000100000101 h2 (by decide)⟩)))
  · exact Or.inl rfl
  · exact Or.inr (Or.inr (Or.inr (Or.inr (Or.inl
      ⟨rfl, heq 0b000100000010 h4 (by decide), by omega⟩))))
  · refine Or.inr (Or.inr (Or.inr (Or.inr (Or.inr (Or.inl ⟨rfl, ?_, by omega⟩)))))
    exact (funct7_eq_iff _ 9 (by decide)).mp h5
  · exact Or.inl rfl
  · exact Or.inr (Or.inr (Or.inr (Or.inr (Or.inr (Or.inr
      ⟨rfl, heq 0b001100000010 h7 (by decide), by omega⟩)))))
  · exact Or.inl rfl

/-- A word with opcode SYSTEM and funct3 0 is illegal, an instruction, or accepted. -/
theorem priv_word_cases (cfg : Config) (s : Hart) (n : BitVec 12) (rs1 rd : Reg) :
    privHandler cfg n.toNat s = .error illegalOp s ∨
      Legal (encodeI n rs1 0b000 rd opcodeSYSTEM) ∨
      AcceptsUndefined s (encodeI n rs1 0b000 rd opcodeSYSTEM) := by
  rw [privHandler_error_iff]
  by_cases hz : rs1 = 0 ∧ rd = 0
  · obtain ⟨rfl, rfl⟩ := hz
    rcases priv_cases n s.privilegeMode with h | ⟨-, rfl⟩ | ⟨-, rfl⟩ | ⟨-, rfl⟩ | ⟨-, rfl, -⟩ |
      ⟨-, h7, -⟩ | ⟨-, rfl, -⟩
    · exact Or.inl (Or.inl h)
    · exact Or.inr (Or.inl ⟨.ecall, rfl⟩)
    · exact Or.inr (Or.inl ⟨.ebreak, rfl⟩)
    · exact Or.inr (Or.inl ⟨.wfi, rfl⟩)
    · exact Or.inr (Or.inl ⟨.sret, rfl⟩)
    · refine Or.inr (Or.inl ⟨.sfenceVma 0 (n.extractLsb' 0 5), ?_⟩)
      rw [encodeI_eq, h7]
      rfl
    · exact Or.inr (Or.inl ⟨.mret, rfl⟩)
  · have hne : rs1 ≠ 0 ∨ rd ≠ 0 := not_and_or.mp hz
    rcases priv_cases n s.privilegeMode with h | ⟨-, hn⟩ | ⟨-, hn⟩ | ⟨-, hn⟩ | ⟨h, rfl, hmode⟩ |
      ⟨h, h7, hmode⟩ | ⟨-, rfl, hmode⟩
    · exact Or.inl (Or.inl h)
    · exact Or.inr (Or.inr (.unprivileged n rs1 rd (Or.inl hn) hne))
    · exact Or.inr (Or.inr (.unprivileged n rs1 rd (Or.inr (Or.inl hn)) hne))
    · exact Or.inr (Or.inr (.unprivileged n rs1 rd (Or.inr (Or.inr hn)) hne))
    · by_cases htsr : s.privilegeMode = 0b01 ∧ opAnd s.csrMstatus 0b10000000000000000000000 ≠ 0
      · exact Or.inl (Or.inr (Or.inl ⟨h, htsr⟩))
      · exact Or.inr (Or.inr (.sret rs1 rd hne hmode htsr))
    · have hword : n = 0b0001001#7 ++ n.extractLsb' 0 5 :=
        (append_extract n).trans (congrArg (· ++ n.extractLsb' 0 5) h7)
      by_cases hd : rd = 0
      · subst hd
        refine Or.inr (Or.inl ⟨.sfenceVma rs1 (n.extractLsb' 0 5), ?_⟩)
        rw [encodeI_eq, h7]
        rfl
      · by_cases htvm : s.privilegeMode = 0b01 ∧ opAnd s.csrMstatus 0b100000000000000000000 ≠ 0
        · exact Or.inl (Or.inr (Or.inr ⟨h, htvm⟩))
        · rw [hword]
          exact Or.inr (Or.inr (.sfenceVma _ rs1 rd hd hmode htvm))
    · exact Or.inr (Or.inr (.mret rs1 rd hne hmode))

/-- The privileged instructions that a mode allows without a further check. -/
theorem privHandler_ne_error (cfg : Config) {imm : Int} {s : Hart} {p : Priv}
    (hp : priv imm s.privilegeMode = p)
    (h : p = .ECALL ∨ p = .EBREAK ∨ p = .WFI ∨ p = .MRET) :
    ¬privHandler cfg imm s = .error illegalOp s := by
  rw [privHandler_error_iff, hp]
  rcases h with rfl | rfl | rfl | rfl <;> simp

/-- An accepted word is no instruction, and raises no illegal-instruction exception. -/
theorem AcceptsUndefined.not_illegal {s : Hart} {w : Word} (h : AcceptsUndefined s w) (cfg : Config) :
    ¬Legal w ∧ ∀ d, FetchOf w d → ¬RaisesIllegal cfg s d := by
  have hsystem : ∀ {n : BitVec 12} {rs1 rd : Reg}, rs1 ≠ 0 ∨ rd ≠ 0 → n.extractLsb' 5 7 ≠ 0b0001001 →
      ¬Legal (encodeI n rs1 0b000 rd opcodeSYSTEM) := by
    intro n rs1 rd hne h7 hlegal
    obtain ⟨hd, h1 | h7'⟩ := legal_system hlegal
    · exact hne.elim (fun h => h h1) (fun h => h hd)
    · exact h7 h7'
  have hpriv : ∀ {n : BitVec 12} {rs1 rd : Reg},
      ¬privHandler cfg n.toNat s = .error illegalOp s →
      ∀ d, FetchOf (encodeI n rs1 0b000 rd opcodeSYSTEM) d → ¬RaisesIllegal cfg s d := by
    intro n rs1 rd hne d hd
    obtain ⟨hlabel, himm⟩ := hd.priv
    rw [raisesIllegal_iff, execute_eq cfg _ _ hlabel]
    change ¬privHandler cfg d.imm s = _
    rwa [himm]
  cases h with
  | jalr n rs1 funct3 rd h =>
      refine ⟨not_legal_jalr h, fun d hd => ?_⟩
      rw [raisesIllegal_iff, execute_eq cfg _ _ hd.jalr]
      exact jalr_not_illegal _ _ _ s
  | lr order rs2 rs1 rd h =>
      refine ⟨not_legal_lr h, fun d hd => ?_⟩
      rw [raisesIllegal_iff, execute_eq cfg _ _ hd.lr]
      exact lrW_not_illegal cfg d _ s
  | unprivileged n rs1 rd hn h =>
      rcases hn with rfl | rfl | rfl
      · exact ⟨hsystem h (by decide), hpriv (privHandler_ne_error cfg rfl (Or.inl rfl))⟩
      · exact ⟨hsystem h (by decide), hpriv (privHandler_ne_error cfg rfl (Or.inr (Or.inl rfl)))⟩
      · exact ⟨hsystem h (by decide),
          hpriv (privHandler_ne_error cfg rfl (Or.inr (Or.inr (Or.inl rfl))))⟩
  | sret rs1 rd h hmode htsr =>
      refine ⟨hsystem h (by decide), hpriv ?_⟩
      have hp : priv (0b000100000010 : BitVec 12).toNat s.privilegeMode = .SRET := by
        change (if s.privilegeMode < 0b01 then Priv.ILLEGAL_OP else Priv.SRET) = _
        rw [if_neg (by omega)]
      rw [privHandler_error_iff, hp]
      simp only [reduceCtorEq, false_or, true_and, false_and, or_false]
      exact htsr
  | sfenceVma rs2 rs1 rd h hmode htvm =>
      refine ⟨fun hlegal => h (legal_system hlegal).1, hpriv ?_⟩
      have hp : priv (0b0001001#7 ++ rs2).toNat s.privilegeMode = .SFENCE_VMA := by
        have h' := priv_sfenceVma rs2 s.privilegeMode
        rw [if_neg (by omega), BitVec.toNat_setWidth, Nat.mod_eq_of_lt (by omega)] at h'
        exact h'
      rw [privHandler_error_iff, hp]
      simp only [reduceCtorEq, false_or, true_and, false_and]
      exact htvm
  | mret rs1 rd h hmode =>
      refine ⟨hsystem h (by decide), hpriv ?_⟩
      have hp := priv_mret s.privilegeMode
      rw [if_neg (by omega)] at hp
      exact privHandler_ne_error cfg hp (Or.inr (Or.inr (Or.inr rfl)))
  | mlogsys n rs1 rd h hmode =>
      refine ⟨not_legal_mlogsys h, fun d hd => ?_⟩
      rw [raisesIllegal_iff, execute_eq cfg _ _ hd.mlogsys]
      change ¬Cpu.mlogsys cfg _ s = _
      rw [mlogsys_error_iff]
      omega

/-- Every word that is no instruction raises an illegal-instruction exception, unless it is one of
the words of `AcceptsUndefined`. -/
theorem illegal_iff_not_acceptsUndefined (cfg : Config) (s : Hart) (w : Word) :
    (¬Legal w → ∀ d, FetchOf w d → RaisesIllegal cfg s d) ↔ ¬AcceptsUndefined s w := by
  constructor
  · intro h haccepts
    obtain ⟨hlegal, hraises⟩ := haccepts.not_illegal cfg
    have hd : FetchOf w (slowFetch w.toNat 0) := ⟨0, Or.inl rfl⟩
    exact hraises _ hd (h hlegal _ hd)
  · intro haccepts hlegal d hd
    rcases decode_cases w 0 with hop | hl | hundef
    · exact raisesIllegal_of_opId ((hd.opId 0).trans hop)
    · exact absurd hl hlegal
    · cases hundef with
      | jalr n rs1 funct3 rd h => exact absurd (.jalr n rs1 funct3 rd h) haccepts
      | lr order rs2 rs1 rd h => exact absurd (.lr order rs2 rs1 rd h) haccepts
      | priv n rs1 rd =>
          obtain ⟨hlabel, himm⟩ := hd.priv
          rw [raisesIllegal_iff, execute_eq cfg _ _ hlabel]
          change privHandler cfg d.imm s = _
          rw [himm]
          rcases priv_word_cases cfg s n rs1 rd with h | h | h
          · exact h
          · exact absurd h hlegal
          · exact absurd h haccepts
      | mlogsys n rs1 rd h =>
          rw [raisesIllegal_iff, execute_eq cfg _ _ hd.mlogsys]
          change mlogsys cfg _ s = _
          rw [mlogsys_error_iff]
          by_contra hmode
          exact haccepts (.mlogsys n rs1 rd h (by omega))

/-- `jalr x0, 0(x0)` with funct3 1 is no instruction, and is executed right after a reset. -/
theorem jalr_funct3_accepted :
    ¬(¬Legal 0x00001067#32 → ∀ d, FetchOf 0x00001067#32 d →
      RaisesIllegal (smallBuild (romOfWords [0x00001067]))
        (Machine.start (smallBuild (romOfWords [0x00001067])) fun _ _ => 0).hart d) := by
  have hword : 0x00001067#32 = encodeI 0 0 0b001 0 0b1100111 := by decide
  intro h
  rw [hword] at h
  obtain ⟨hlegal, hraises⟩ := AcceptsUndefined.not_illegal
    (s := (Machine.start (smallBuild (romOfWords [0x00001067])) fun _ _ => 0).hart)
    (.jalr 0 0 0b001 0 (by decide)) (smallBuild (romOfWords [0x00001067]))
  have hd : FetchOf (encodeI 0 0 0b001 0 0b1100111) (slowFetch _ 0) := ⟨0, Or.inl rfl⟩
  exact hraises _ hd (h hlegal _ hd)

end Mlogv32.Cpu
