import Mlogv32.Cpu.Lemmas.Cursor
import Mlogv32.Cpu.Theorems.Integer
import Mlogv32.Isa.Machine

/-!
# What the hart shows of a hart of the architecture

`Shows` relates a hart in machine mode to a state of `Isa.State`. Each instruction that the state
can execute ends in the handler with the state after it.
-/

namespace Mlogv32.Cpu
open Mlog Logic Isa

variable {cfg : Config} {s s' : Hart} {t u : State}

/-! ## ROM -/

/-- The bytes that ROM holds. -/
def romBytes (cfg : Config) : Memory := fun a =>
  if 0 ≤ a ∧ a < cfg.romSize then Memory.byte (loadRomWordUnchecked cfg a).toNat (a % 4).toNat else 0

/-- The physical memory of the hart, without its devices. -/
def Config.platform (cfg : Config) : Platform where
  rom := romBytes cfg
  romSize := cfg.romSize
  ramStart := ramStart
  ramEnd := cfg.ramEnd

theorem Config.romSize_aligned' (cfg : Config) : cfg.romSize % 4 = 0 ∧ cfg.ramEnd % 4 = 0 := by
  have hprogram := cfg.programRomSize_aligned
  have hdata := cfg.dataRomSize_aligned
  have hram := cfg.ramSize_aligned
  unfold PageConfig.romSize PageConfig.ramEnd ramStart
  omega

/-- A load from ROM takes the word that contains the address. -/
theorem loadRomWordUnchecked_congr (cfg : Config) {a b : Int} (h : a / 4 = b / 4) :
    loadRomWordUnchecked cfg a = loadRomWordUnchecked cfg b := by
  have hmask : opAnd a 0xfffffffc = opAnd b 0xfffffffc := by
    have ha := opAnd_mask (b := 0xfffffffc) a 2 30 (by decide) (by decide)
    have hb := opAnd_mask (b := 0xfffffffc) b 2 30 (by decide) (by decide)
    rw [ha, hb]
    norm_num
    rw [h]
  unfold loadRomWordUnchecked
  rw [hmask]

theorem read_romBytes (cfg : Config) {a : Int} {n : Nat} (ha : 0 ≤ a ∧ a < cfg.romSize)
    (hn : a % 4 + n ≤ 4) :
    (romBytes cfg).read a n = (loadRomWordUnchecked cfg a).toNat / 256 ^ (a % 4).toNat % 256 ^ n := by
  have hend := cfg.romSize_aligned'
  apply Memory.read_of_bytes
  intro i hi
  rw [romBytes, if_pos (by omega),
    loadRomWordUnchecked_congr cfg (show (a + i) / 4 = a / 4 by omega), Memory.byte_div]
  congr 1
  omega

/-- The bytes of a word that a load takes. -/
theorem extractValue_word {w a : Int} (hw : IsWord w) (ha : 0 ≤ a) (n : Nat) :
    extractValue w a (8 * n) = (w.toNat / 256 ^ (a % 4).toNat % 256 ^ n : Nat) := by
  rw [extractValue, opMod_eq ha (by decide)]
  obtain ⟨w, rfl⟩ := Int.eq_ofNat_of_zero_le hw.1
  obtain ⟨o, ho, hlt⟩ : ∃ o : Nat, a % 4 = o ∧ o < 4 := ⟨(a % 4).toNat, by omega, by omega⟩
  have hlt := hw.2
  rw [ho]
  have hshr := opShr_eq w (8 * o) (by omega) (by omega) (by omega)
  push_cast at hshr
  rw [mul_comm (o : Int), hshr, opPow, opMod_eq (by positivity) (by positivity)]
  push_cast
  rw [Int.toNat_natCast, Int.toNat_natCast, show (8 * (n : Int)).toNat = 8 *
    n by omega, pow_mul, pow_mul]
  norm_num

/-! ## The relation -/

/-- The hart is in machine mode with the interrupts disabled, and has the registers, the RAM and the
count of instructions of `t`. -/
structure Shows (cfg : Config) (t : State) (s : Hart) : Prop where
  registers : ∀ r : Reg, s.registers r.toNat = (t.registers r).toNat
  memory : memState cfg s = t.memory
  privilegeMode : s.privilegeMode = 0b11
  effectivePrivilegeMode : s.effectivePrivilegeMode = 0b11
  csrMie : s.csrMie = 0
  csrMinstret : 0 ≤ s.csrMinstret ∧ s.csrMinstret < 2 ^ 32
  instret : s.csr cfg minstrethCsr * 2 ^ 32 + s.csrMinstret = t.instret

/-- What `Shows` reads of a hart, but for its memory. -/
def visible (cfg : Config) (s : Hart) : ((Int → Int) × Int × Int) × Int × Int × Int :=
  ((s.registers, s.privilegeMode, s.effectivePrivilegeMode), s.csrMie,
    s.csrMinstret, s.csr cfg minstrethCsr)

theorem Shows.frame (h : Shows cfg t s) (hvisible : visible cfg s' = visible cfg s)
    (hmemory : memState cfg s' = u.memory) (hregisters : u.registers = t.registers)
    (hinstret : u.instret = t.instret) :
    Shows cfg u s' := by
  simp only [visible, Prod.mk.injEq] at hvisible
  obtain ⟨⟨hregs, hmode, heffective⟩, hmie, hminstret, hminstreth⟩ := hvisible
  refine ⟨fun r => ?_, hmemory, hmode.trans h.privilegeMode, heffective.trans h.effectivePrivilegeMode,
    hmie.trans h.csrMie, hminstret ▸ h.csrMinstret, ?_⟩
  · rw [hregs, hregisters]
    exact h.registers r
  · rw [hminstret, hminstreth, hinstret]
    exact h.instret

/-- A change of what `Shows` does not read. -/
theorem Shows.of_visible (h : Shows cfg t s) (hvisible : visible cfg s' = visible cfg s)
    (hmemory : memState cfg s' = memState cfg s) : Shows cfg t s' :=
  h.frame hvisible (hmemory.trans h.memory) rfl rfl

theorem LoadFrame.visible (h : LoadFrame s s') : visible cfg s' = Cpu.visible cfg s := by
  obtain ⟨_, _, _, rfl, _⟩ := h
  rfl

theorem reg_toNat_inj {r r' : Reg} (h : (r.toNat : Int) = r'.toNat) : r = r' :=
  BitVec.eq_of_toNat_eq (Int.natCast_inj.mp h)

theorem Shows.set (h : Shows cfg t s) (rd : Reg) (v : Word) :
    Shows cfg (t.set rd v) (writeRd s rd.toNat v.toNat) := by
  have hzero : (rd.toNat : Int) = 0 ↔ rd = 0 :=
    ⟨fun heq => reg_toNat_inj (heq.trans rfl), fun heq => by rw [heq]; rfl⟩
  unfold writeRd
  split
  · rename_i heq
    refine h.frame rfl h.memory (funext fun r => if_neg fun hne => hne.1 (hzero.mp heq)) rfl
  · rename_i hne
    refine ⟨fun r => ?_, h.memory, h.privilegeMode, h.effectivePrivilegeMode, h.csrMie,
      h.csrMinstret, h.instret⟩
    dsimp only [State.set]
    by_cases hr : r = rd
    · subst hr
      rw [if_pos rfl, if_pos ⟨fun h => hne (hzero.mpr h), rfl⟩]
    · rw [if_neg fun heq => hr (reg_toNat_inj heq), if_neg fun heq => hr heq.2]
      exact h.registers r

theorem Shows.withPc (h : Shows cfg t s) (pc : Word) : Shows cfg { t with pc := pc } s :=
  ⟨h.registers, h.memory, h.privilegeMode, h.effectivePrivilegeMode, h.csrMie, h.csrMinstret, h.instret⟩

theorem writeRd_zero (s : Hart) (rd : Int) : writeRd s 0 rd = s := if_pos rfl

/-- At the end of the handler, but for the write of `rd`. -/
structure Ends (cfg : Config) (v : State) (e : End) (s : Hart) : Prop where
  retires : e.retires = true
  nextPc : s.nextPc = v.pc.toNat
  shows : Shows cfg v (writeRd s e.rdId e.rd)

/-- A fetched instruction with the operands of its registers. -/
structure Operands (t : State) (d : Fetched) (rs1 rs2 : Int) : Prop where
  rs1 : ∃ r : Reg, d.rs1Id = r.toNat ∧ rs1 = (t.registers r).toNat
  rs2 : ∃ r : Reg, d.rs2Id = r.toNat ∧ rs2 = (t.registers r).toNat

/-- At the dispatch. -/
structure Dispatched (cfg : Config) (t : State) (d : Fetched) (rs1 rs2 : Int) (s : Hart) : Prop where
  shows : Shows cfg t s
  pc : s.pc = t.pc.toNat
  nextPc : s.nextPc = t.pc.toNat + 4
  pcLt : t.pc.toNat + 4 < 2 ^ 32
  cursor : s.icacheVar = .null ∨ ∃ i, s.icacheVar = .var i
  operands : Operands t d rs1 rs2

variable {d : Fetched} {rs1 rs2 : Int} {i : Instr}

theorem Operands.rs1_eq (h : Operands t d rs1 rs2) (hruns : d.Runs i) {r : Reg} (hr : i.rs1 = some r) :
    rs1 = (t.registers r).toNat := by
  obtain ⟨r', hid, heq⟩ := h.rs1
  rw [heq, reg_toNat_inj (hid.symm.trans (hruns.rs1 r hr))]

theorem Operands.rs2_eq (h : Operands t d rs1 rs2) (hruns : d.Runs i) {r : Reg} (hr : i.rs2 = some r) :
    rs2 = (t.registers r).toNat := by
  obtain ⟨r', hid, heq⟩ := h.rs2
  rw [heq, reg_toNat_inj (hid.symm.trans (hruns.rs2 r hr))]

theorem Dispatched.next (h : Dispatched cfg t d rs1 rs2 s) : s.nextPc = (t.next.pc.toNat : Int) := by
  have hlt := h.pcLt
  rw [h.nextPc, State.next, BitVec.toNat_add, show (4 : Word).toNat = 4 from rfl]
  omega

/-! ## Integer instructions -/

theorem Dispatched.alu (h : Dispatched cfg t d rs1 rs2 s) (hruns : d.Runs i) {rd : Reg}
    (hrd : i.rd = some rd) {v : Word}
    (hv : i.result t.pc (i.rs1.elim 0 t.registers) (i.rs2.elim 0 t.registers) = some v) :
    ∃ e s', execute cfg d rs1 rs2 s = .ok e s' ∧ Ends cfg (t.set rd v).next e s' := by
  obtain ⟨r1, hid1, hrs1⟩ := h.operands.rs1
  obtain ⟨r2, hid2, hrs2⟩ := h.operands.rs2
  have h1 {r : Reg} (hr : i.rs1 = some r) : r1 = r := reg_toNat_inj (hid1.symm.trans (hruns.rs1 r hr))
  have h2 {r : Reg} (hr : i.rs2 = some r) : r2 = r := reg_toNat_inj (hid2.symm.trans (hruns.rs2 r hr))
  have hv' : i.result t.pc (t.registers r1) (t.registers r2) = some v := by
    cases i with
    | lui => exact hv
    | auipc => exact hv
    | opImm =>
        rw [h1 rfl]
        exact hv
    | shiftImm =>
        rw [h1 rfl]
        exact hv
    | opReg =>
        rw [h1 rfl, h2 rfl]
        exact hv
    | _ => cases hv
  refine ⟨_, s, by rw [hrs1, hrs2]; exact hruns.execute h.pc hv' cfg, rfl, h.next, ?_⟩
  change Shows cfg _ (writeRd s d.rdId v.toNat)
  rw [hruns.rd rd hrd]
  exact (h.shows.set rd v).withPc _

/-! ## Jumps -/

theorem unconditionalJump_ok {rdId target : Int} (halign : opAnd target 0xffffffff % 4 = 0)
    (hcursor : s.icacheVar = .null ∨ ∃ i, s.icacheVar = .var i) :
    ∃ v, unconditionalJump rdId target s =
      .ok (.endInstructionWithRd rdId (s.pc + 4))
        { s with nextPc := opAnd target 0xffffffff, icacheVar := v } := by
  have hmod : ¬opMod (opAnd target 0xffffffff) 4 ≠ 0 :=
    not_not.mpr ((opMod_eq_zero (by decide)).mpr halign)
  unfold unconditionalJump
  rw [bind_get]
  dsimp only
  rw [if_neg hmod]
  rcases hcursor with hnull | ⟨i, hvar⟩
  · refine ⟨s.icacheVar, ?_⟩
    rw [if_pos (by rw [hnull]; rfl)]
    rfl
  · rw [if_neg (by rw [hvar]; exact Bool.false_ne_true)]
    split
    · exact ⟨.null, rfl⟩
    · rw [hvar]
      exact ⟨jumpCursor i (opAnd target 0xffffffff), rfl⟩

theorem Dispatched.jump (h : Dispatched cfg t d rs1 rs2 s) (rd : Reg) {target : Int} {a : Word}
    (ha : opAnd target 0xffffffff = a.toNat) (hgoto : (t.set rd (t.pc + 4)).goto a = some u) :
    ∃ e s', unconditionalJump rd.toNat target s = .ok e s' ∧ Ends cfg u e s' := by
  unfold State.goto at hgoto
  split at hgoto
  · rename_i halign
    cases hgoto
    have hnext := h.next
    rw [h.nextPc, ← h.pc] at hnext
    have hjump := @unconditionalJump_ok s rd.toNat target (by omega) h.cursor
    rw [hnext] at hjump
    obtain ⟨v, hx⟩ := hjump
    have hshows : Shows cfg t { s with nextPc := opAnd target 0xffffffff, icacheVar := v } :=
      h.shows.of_visible rfl rfl
    exact ⟨_, _, hx, rfl, ha, (hshows.set rd (t.pc + 4)).withPc a⟩
  · cases hgoto

theorem Dispatched.jal {rd : Reg} {imm : BitVec 20} (h : Dispatched cfg t d rs1 rs2 s)
    (hruns : d.Runs (.jal rd imm)) (hu : t.execute cfg.platform (.jal rd imm) = some u) :
    ∃ e s', execute cfg d rs1 rs2 s = .ok e s' ∧ Ends cfg u e s' := by
  rw [execute_eq cfg _ _ hruns.label]
  change ∃ e s', Cpu.jal d.rdId d.imm s = .ok e s' ∧ _
  rw [Cpu.jal, bind_get, hruns.rd rd rfl]
  refine h.jump rd ?_ hu
  rw [h.pc, hruns.imm _ rfl, opAnd_word, BitVec.toNat_add]
  rfl

/-- The target of JALR, without its lowest bit. -/
theorem opAnd_even (x y : Word) :
    opAnd (opAnd (x.toNat + y.toNat) 0xfffffffe) 0xffffffff = ((x + y) &&& 0xfffffffe : Word).toNat := by
  have hmask (a : Int) : opAnd a 0xfffffffe = a / 2 ^ 1 % 2 ^ 31 * 2 ^ 1 :=
    opAnd_mask a 1 31 (by decide) (by decide)
  have hand : opAnd ((x + y).toNat : Int) 0xfffffffe = ((x + y) &&& 0xfffffffe : Word).toNat :=
    opAnd_word32 (x + y) 0xfffffffe
  rw [opAnd_word, ← hand, hmask, hmask, BitVec.toNat_add]
  omega

theorem Dispatched.jalr {rd r1 : Reg} {imm : BitVec 12} (h : Dispatched cfg t d rs1 rs2 s)
    (hruns : d.Runs (.jalr rd r1 imm)) (hu : t.execute cfg.platform (.jalr rd r1 imm) = some u) :
    ∃ e s', execute cfg d rs1 rs2 s = .ok e s' ∧ Ends cfg u e s' := by
  rw [execute_eq cfg _ _ hruns.label]
  change ∃ e s', unconditionalJump d.rdId (opAnd (rs1 + d.imm) 0xfffffffe) s = .ok e s' ∧ _
  rw [hruns.rd rd rfl]
  refine h.jump rd ?_ hu
  rw [h.operands.rs1_eq hruns rfl, hruns.imm _ rfl]
  exact opAnd_even _ _

/-- A branch that is not taken, a fence, WFI. -/
theorem Dispatched.pass (h : Dispatched cfg t d rs1 rs2 s) {e : End}
    (he : e = .endInstruction ∨ e = .pauseOneTick) (hframe : s'.nextPc = s.nextPc)
    (hvisible : visible cfg s' = visible cfg s) (hmemory : memState cfg s' = memState cfg s) :
    Ends cfg t.next e s' := by
  have hshows : Shows cfg t.next (writeRd s' 0 0) := by
    rw [writeRd_zero]
    exact (h.shows.of_visible hvisible hmemory).withPc _
  rcases he with rfl | rfl
  · exact ⟨rfl, hframe.trans h.next, hshows⟩
  · exact ⟨rfl, hframe.trans h.next, hshows⟩

theorem Dispatched.branch {op : BranchOp} {r1 r2 : Reg} {imm : BitVec 12}
    (h : Dispatched cfg t d rs1 rs2 s) (hruns : d.Runs (.branch op r1 r2 imm))
    (hu : t.execute cfg.platform (.branch op r1 r2 imm) = some u) :
    ∃ e s', execute cfg d rs1 rs2 s = .ok e s' ∧ Ends cfg u e s' := by
  rw [h.operands.rs1_eq hruns rfl, h.operands.rs2_eq hruns rfl, (hruns.branch cfg s _ _).1]
  change (if op.holds (t.registers r1) (t.registers r2) then _ else _) = some u at hu
  split at hu
  · rename_i htaken
    have htarget : opAnd (s.pc + d.imm) 0xffffffff = (t.pc + (imm ++ 0#1).signExtend 32).toNat := by
      rw [h.pc, hruns.imm _ rfl, opAnd_word, BitVec.toNat_add]
      rfl
    have hjump := h.jump 0 htarget (by rw [State.set_zero]; exact hu)
    rw [show ((0 : Reg).toNat : Int) = 0 from rfl] at hjump
    rw [htaken, Cpu.branch, if_pos rfl, Cpu.jal, bind_get]
    exact hjump
  · rename_i htaken
    cases hu
    rw [Bool.not_eq_true] at htaken
    rw [htaken]
    exact ⟨_, s, rfl, h.pass (.inl rfl) rfl rfl rfl⟩

/-! ## Loads -/

theorem loadValueAt_rom {a : Int} {op : LoadOp} (ha : 0 ≤ a ∧ a < cfg.romSize)
    (halign : a % op.bytes = 0) (mtval : Int) (s : Hart) :
    loadValueAt cfg mtval (8 * op.bytes) op.signed a s =
      .ok (op.extend ((romBytes cfg).read a op.bytes)).toNat s := by
  have hfit : a % 4 + op.bytes ≤ 4 := by
    cases op <;> simp only [LoadOp.bytes] at halign ⊢ <;> omega
  have hload : loadWord cfg a { mcause := 5, mtval := mtval } s =
      .ok (loadRomWordUnchecked cfg a) s := by
    unfold loadWord
    rw [if_pos ha.2]
    rfl
  have hvalue := extractValue_word (loadRomWordUnchecked_word cfg a) ha.1 op.bytes
  have hlt := (romBytes cfg).read_lt a op.bytes
  rw [← read_romBytes cfg ha hfit] at hvalue
  unfold loadValueAt
  rw [bind_ok hload, hvalue]
  generalize (romBytes cfg).read a op.bytes = v at hlt
  have hbytes {k : Nat} (h : v < 2 ^ k) (hk : k ≤ 32) : ((BitVec.ofNat 32 v).toNat : Int) = v := by
    have := Nat.pow_le_pow_right (n := 2) (by decide) hk
    rw [BitVec.toNat_ofNat, Nat.mod_eq_of_lt (by omega)]
  cases op with
  | lb => exact congrArg (EStateM.Result.ok · s) (extendSignRd_eq (k := 7) (by decide) hlt)
  | lh => exact congrArg (EStateM.Result.ok · s) (extendSignRd_eq (k := 15) (by decide) hlt)
  | lw => exact congrArg (EStateM.Result.ok · s) (hbytes (k := 32) hlt le_rfl).symm
  | lbu => exact congrArg (EStateM.Result.ok · s) (hbytes (k := 8) hlt (by decide)).symm
  | lhu => exact congrArg (EStateM.Result.ok · s) (hbytes (k := 16) hlt (by decide)).symm

/-- In machine mode a load or a store goes to its effective address. -/
theorem Dispatched.setup (h : Dispatched cfg t d rs1 rs2 s) (hruns : d.Runs i) {r : Reg}
    {imm : BitVec 12} (hr : i.rs1 = some r) (himm : i.imm = some (imm.signExtend 32)) {n : Nat}
    (hn : n ∣ 4) (halign : (t.registers r + imm.signExtend 32).toNat % n = 0) (mcause : Int) :
    effectiveAddress rs1 d.imm = (t.registers r + imm.signExtend 32).toNat ∧
    setupLoadAndStoreValue cfg mcause rs1 d.imm (8 * n) s =
      .ok ((t.registers r + imm.signExtend 32).toNat : Int) s := by
  have haddress : effectiveAddress rs1 d.imm = (t.registers r + imm.signExtend 32).toNat := by
    rw [effectiveAddress, h.operands.rs1_eq hruns hr, hruns.imm _ himm,
      opMod_eq (by omega) (by decide), BitVec.toNat_add]
    rfl
  have hpos : 0 < n := Nat.pos_of_dvd_of_pos hn (by decide)
  have hdiv : opIdiv (8 * n) 8 = n := by
    rw [opIdiv_eq _ (by decide)]
    omega
  have hmode : ¬s.effectivePrivilegeMode < 0b11 := by
    rw [h.shows.effectivePrivilegeMode]
    decide
  refine ⟨haddress, ?_⟩
  rw [← haddress]
  refine setupLoadAndStoreValue_machine hmode ?_
  rw [hdiv, haddress, opMod_eq (by omega) (by omega)]
  exact_mod_cast halign

theorem Dispatched.load {op : LoadOp} {rd r1 : Reg} {imm : BitVec 12} (h : Dispatched cfg t d rs1 rs2 s)
    (hruns : d.Runs (.load op rd r1 imm)) (hu : t.execute cfg.platform (.load op rd r1 imm) = some u) :
    ∃ e s', execute cfg d rs1 rs2 s = .ok e s' ∧ Ends cfg u e s' := by
  change t.load cfg.platform op rd (t.registers r1 + imm.signExtend 32) = some u at hu
  unfold State.load at hu
  split at hu
  · rename_i halign
    obtain ⟨-, hsetup⟩ := h.setup hruns rfl rfl (by cases op <;> decide) halign 4
    generalize t.registers r1 + imm.signExtend 32 = a at hu hsetup halign
    obtain ⟨v, hread, rfl⟩ := Option.map_eq_some_iff.mp hu
    have halign' : (a.toNat : Int) % op.bytes = 0 := by exact_mod_cast halign
    have hvalue : loadValueAt cfg (effectiveAddress rs1 d.imm) (8 * op.bytes) op.signed a.toNat s =
        .ok (op.extend v).toNat s := by
      unfold State.read at hread
      split at hread
      · rename_i hrom
        cases hread
        have hpos : 0 < op.bytes := by cases op <;> decide
        have hsize : (a.toNat : Int) + op.bytes ≤ cfg.romSize := hrom.2
        exact loadValueAt_rom ⟨hrom.1, by omega⟩ halign' _ s
      · split at hread
        · rename_i hram
          cases hread
          have hpos : 0 < op.bytes := by cases op <;> decide
          have hsize : (a.toNat : Int) + op.bytes ≤ cfg.ramEnd := hram.2
          have hin : InRam cfg a.toNat := ⟨hram.1, by omega⟩
          rw [← h.shows.memory]
          exact loadValueAt_ram hin halign' _ s
        · cases hread
    have hop : memOp (handlerLabel (.load op rd r1 imm)) = some (.load op) := by cases op <;> rfl
    refine ⟨.endInstructionWithRd d.rdId (op.extend v).toNat, s, ?_, rfl, h.next, ?_⟩
    · rw [execute_eq cfg _ _ hruns.label, handler_eq_memHandler hop, memHandler, loadValue,
        bind_ok hsetup, bind_ok hvalue]
      rfl
    · change Shows cfg _ (writeRd s d.rdId (op.extend v).toNat)
      rw [hruns.rd rd rfl]
      exact (h.shows.set rd _).withPc _
  · cases hu

/-! ## Stores and atomics -/

section

variable {a : Int}

theorem storedRam_visible (s : Hart) (ha : InRam cfg a) (value : Int) :
    (storedRam cfg s a value).nextPc = s.nextPc ∧
    visible cfg (storedRam cfg s a value) = visible cfg s := by
  have hcsrs : (storedRam cfg s a value).csr cfg minstrethCsr = s.csr cfg minstrethCsr :=
    congrArg (fun csrs => (csrs minstrethCsr).toNum) (storedRam_csrs s ha value)
  unfold visible
  rw [hcsrs]
  unfold storedRam
  split
  · exact ⟨rfl, rfl⟩
  · exact ⟨rfl, rfl⟩

theorem storeValueAt_state (ha : InRam cfg a) (op : StoreOp) (mtval rs2 : Int) (s : Hart) :
    ∃ b value, InRam cfg b ∧
      storeValueAt cfg mtval rs2 (8 * op.bytes) a s = .ok (.endInstructionWithRd 0 0)
        (storedRam cfg s b value) := by
  have hsyscon : a ≠ syscon := by
    have := ha.lt_mmioStart
    unfold mmioStart at this
    unfold syscon
    omega
  obtain ⟨hword, hmask⟩ := ha.word
  have hslot := accessRam_congr cfg ha.1 hword.1 (show a / 4 = a / 4 * 4 / 4 by omega)
  have hwrite (value : Int) : (if a / 4 * 4 ≥ mmioStart then storeMmioWordUnchecked cfg (a / 4 * 4) value
      else storeRamWordUnchecked cfg (a / 4 * 4) value (accessRam cfg a) 0 0 : Op End) s =
        .ok (.endInstructionWithRd 0 0) (storedRam cfg s (a / 4 * 4) value) := by
    rw [if_neg (not_le.mpr hword.lt_mmioStart), hslot]
    exact storeRamWordUnchecked_eq cfg _ value 0 0 s
  by_cases hlen : (8 * (op.bytes : Int)) = 32
  · refine ⟨_, rs2, hword, ?_⟩
    simp only [storeValueAt, if_neg hsyscon, hmask, if_pos hlen]
    exact hwrite rs2
  · refine ⟨_, insertValue (loadRamWordUnchecked cfg s.procs a) a rs2 (8 * op.bytes), hword, ?_⟩
    simp only [storeValueAt, if_neg hsyscon, hmask, if_neg hlen]
    change EStateM.bind (loadRamOrMmioWord cfg a _) _ s = _
    rw [EStateM.bind, loadRamOrMmioWord_ram ha]
    exact hwrite _

/-- A store or an atomic changes nothing that `Shows` reads, but RAM. -/
theorem memHandler_visible {op : MemOp} (hop : ∀ l, op ≠ .load l)
    (haddr : physicalAddress cfg op d.imm rs1 s = .ok a s) (ha : InRam cfg a) {e : End}
    (hx : memHandler cfg d rs1 rs2 op s = .ok e s') :
    s'.nextPc = s.nextPc ∧ visible cfg s' = visible cfg s := by
  have halign := (wp_ok (physicalAddress_frame cfg op d.imm rs1 s) haddr).2
  cases op with
  | load l => exact absurd rfl (hop l)
  | store op =>
      obtain ⟨b, value, hb, heq⟩ := storeValueAt_state ha op (effectiveAddress rs1 d.imm) rs2 s
      rw [memHandler, storeValue_of_setup haddr, heq] at hx
      obtain ⟨-, rfl⟩ := EStateM.Result.ok.inj hx
      exact storedRam_visible s hb value
  | lr =>
      change lrW cfg d rs1 s = _ at hx
      rw [lrW, bind_ok (show atomicValidateAddress cfg 4 rs1 s = .ok a s from haddr)] at hx
      obtain ⟨-, rfl⟩ := EStateM.Result.ok.inj hx
      exact ⟨rfl, rfl⟩
  | sc =>
      change scW cfg d rs1 rs2 s = _ at hx
      rw [scW, bind_ok (show atomicValidateAddress cfg 6 rs1 s = .ok a s from haddr)] at hx
      change (if s.reservationSet = some a then _ else _ : Op End)
        { s with reservationSet := none } = _ at hx
      split at hx
      · rw [storeRamWordUnchecked_eq] at hx
        obtain ⟨-, rfl⟩ := EStateM.Result.ok.inj hx
        exact storedRam_visible { s with reservationSet := none } ha rs2
      · obtain ⟨-, rfl⟩ := EStateM.Result.ok.inj hx
        exact ⟨rfl, rfl⟩
  | amo op =>
      change amo cfg d rs1 rs2 s = _ at hx
      rw [amo, bind_ok (show atomicValidateAddress cfg 6 rs1 s = .ok a s from haddr), bind_get,
        storeRamWordUnchecked_eq] at hx
      obtain ⟨-, rfl⟩ := EStateM.Result.ok.inj hx
      exact storedRam_visible s ha _

/-- In machine mode an atomic goes to the address in rs1. -/
theorem atomicValidateAddress_machine {mcause : Int} (hmode : ¬s.effectivePrivilegeMode < 0b11)
    (ha : InRam cfg a) (halign : a % 4 = 0) : atomicValidateAddress cfg mcause a s = .ok a s := by
  have hmod : opMod a 4 = 0 := (opMod_eq_zero (by decide)).mpr halign
  have hlow := not_lt.mpr ha.1
  have hhigh := not_le.mpr ha.2
  apply eq_ok_of_wp
  simp only [atomicValidateAddress, wp_bind, wp_get, wp_ite, wp_throw, wp_pure, hmod, hmode,
    hlow, ge_iff_le, hhigh, ne_eq,
    not_true_eq_false, false_imp_iff, not_false_eq_true, forall_const, true_and, and_self]

end

theorem Dispatched.access {op : MemOp} {rd : Reg} {a v y : Word} (h : Dispatched cfg t d rs1 rs2 s)
    (hruns : d.Runs i)
    (hop : memOp (handlerLabel i) = some op) (hload : ∀ l, op ≠ .load l)
    (haddr : a.toNat % State.bytes op = 0 → InRam cfg a.toNat →
      physicalAddress cfg op d.imm rs1 s = .ok (a.toNat : Int) s)
    (hrd : ∀ w, (t.memory.access a.toNat v op).1 = some w → i.rd = some rd) (hrs2 : rs2 = y.toNat)
    (hv : t.memory.access a.toNat v op = t.memory.access a.toNat y op)
    (hu : t.access cfg.platform op rd a v = some u) :
    ∃ e s', execute cfg d rs1 rs2 s = .ok e s' ∧ Ends cfg u e s' := by
  unfold State.access at hu
  split at hu
  · rename_i hcheck
    obtain ⟨halign, hlow, hhigh⟩ := hcheck
    have hpos : 0 < State.bytes op := by cases op <;> first | decide | (rename_i l; cases l <;> decide)
    have hin : InRam cfg a.toNat := ⟨hlow, by change _ + _ ≤ cfg.ramEnd at hhigh; omega⟩
    have haddr := haddr halign hin
    obtain ⟨s', hx, hmemory⟩ := execute_access y hruns.label hop haddr hin
    rw [← hrs2] at hx
    have hx' := hx
    rw [execute_eq cfg _ _ hruns.label, handler_eq_memHandler hop] at hx'
    obtain ⟨hnext, hvisible⟩ := memHandler_visible hload haddr hin hx'
    rw [h.shows.memory, ← hv] at hx hmemory
    dsimp only at hu
    cases hu
    have hshows : Shows cfg { t with memory := (t.memory.access a.toNat v op).2 } s' :=
      h.shows.frame hvisible hmemory rfl rfl
    refine ⟨_, s', hx, ?_⟩
    cases hw : (t.memory.access a.toNat v op).1 with
    | none =>
        refine ⟨rfl, hnext.trans h.next, ?_⟩
        change Shows cfg _ (writeRd s' 0 0)
        rw [writeRd_zero]
        exact hshows.withPc _
    | some w =>
        refine ⟨rfl, hnext.trans h.next, ?_⟩
        change Shows cfg _ (writeRd s' d.rdId w.toNat)
        rw [hruns.rd rd (hrd w hw)]
        exact (hshows.set rd w).withPc _
  · cases hu

theorem Dispatched.store {op : StoreOp} {r1 r2 : Reg} {imm : BitVec 12}
    (h : Dispatched cfg t d rs1 rs2 s) (hruns : d.Runs (.store op r1 r2 imm))
    (hu : t.execute cfg.platform (.store op r1 r2 imm) = some u) :
    ∃ e s', execute cfg d rs1 rs2 s = .ok e s' ∧ Ends cfg u e s' := by
  have hop : memOp (handlerLabel (.store op r1 r2 imm)) = some (.store op) := by cases op <;> rfl
  refine h.access hruns hop (by rintro l ⟨⟩) (fun halign _ => ?_) (by rintro w ⟨⟩)
    (h.operands.rs2_eq hruns rfl) rfl hu
  exact (h.setup hruns rfl rfl (by cases op <;> decide) halign 6).2

theorem Dispatched.atomic {r1 : Reg} (h : Dispatched cfg t d rs1 rs2 s) (hruns : d.Runs i)
    (hr : i.rs1 = some r1) (halign : (t.registers r1).toNat % 4 = 0)
    (hram : InRam cfg (t.registers r1).toNat) (mcause : Int) :
    atomicValidateAddress cfg mcause rs1 s = .ok ((t.registers r1).toNat : Int) s := by
  have hmode : ¬s.effectivePrivilegeMode < 0b11 := by
    rw [h.shows.effectivePrivilegeMode]
    decide
  rw [h.operands.rs1_eq hruns hr]
  exact atomicValidateAddress_machine hmode hram (by exact_mod_cast halign)

theorem Dispatched.lr {order : BitVec 2} {rd r1 : Reg} (h : Dispatched cfg t d rs1 rs2 s)
    (hruns : d.Runs (.lr order rd r1)) (hu : t.execute cfg.platform (.lr order rd r1) = some u) :
    ∃ e s', execute cfg d rs1 rs2 s = .ok e s' ∧ Ends cfg u e s' := by
  obtain ⟨r2, -, hrs2⟩ := h.operands.rs2
  exact h.access hruns rfl (by rintro l ⟨⟩) (fun halign hram => h.atomic hruns rfl halign hram 4)
    (fun _ _ => rfl) hrs2 rfl hu

theorem Dispatched.sc {order : BitVec 2} {rd r1 r2 : Reg} (h : Dispatched cfg t d rs1 rs2 s)
    (hruns : d.Runs (.sc order rd r1 r2)) (hu : t.execute cfg.platform (.sc order rd r1 r2) = some u) :
    ∃ e s', execute cfg d rs1 rs2 s = .ok e s' ∧ Ends cfg u e s' :=
  h.access hruns rfl (by rintro l ⟨⟩) (fun halign hram => h.atomic hruns rfl halign hram 6)
    (fun _ _ => rfl)
    (h.operands.rs2_eq hruns rfl) rfl hu

theorem Dispatched.amo {op : AmoOp} {order : BitVec 2} {rd r1 r2 : Reg}
    (h : Dispatched cfg t d rs1 rs2 s) (hruns : d.Runs (.amo op order rd r1 r2))
    (hu : t.execute cfg.platform (.amo op order rd r1 r2) = some u) :
    ∃ e s', execute cfg d rs1 rs2 s = .ok e s' ∧ Ends cfg u e s' := by
  have hop : memOp (handlerLabel (.amo op order rd r1 r2)) = some (.amo op) := by cases op <;> rfl
  exact h.access hruns hop (by rintro l ⟨⟩) (fun halign hram => h.atomic hruns rfl halign hram 6)
    (fun _ _ => rfl)
    (h.operands.rs2_eq hruns rfl) rfl hu

/-! ## Instructions without an effect -/

theorem memState_decodeToIcache (s : Hart) {a : Int} (ha : SlotWord cfg a) (w : Int) :
    memState cfg (decodeToIcache cfg s a w) = memState cfg s := by
  have hslot := ha.cell.1
  have hbytes : ramBytes cfg (decodeToIcache cfg s a w).procs = ramBytes cfg s.procs := by
    funext b
    unfold ramBytes
    split
    · rename_i hb
      have hsize := cfg.ramSize_aligned
      unfold InRam PageConfig.ramEnd at hb
      rw [loadRamWordUnchecked_eq, loadRamWordUnchecked_eq, cell_decodeToIcache s ha w (by omega),
        if_neg (by omega)]
    · rfl
  rw [memState, hbytes]
  rfl

theorem mlogsysHart_memState (hincr : ∀ i, s.procs cfg.incr i = successor i) (rs1 : Int) :
    memState cfg (mlogsysHart cfg rs1 s) = memState cfg s := by
  have hle := (mlogsysEtext_range cfg rs1).2
  obtain ⟨a, -, -, h⟩ := mlogsysHart_induct
    (P := fun _ s' => s'.etext = mlogsysEtext cfg rs1 ∧ memState cfg s' = memState cfg s)
    (fun a s' h h0 halign hlt =>
      ⟨h.1, (memState_decodeToIcache s' ⟨Or.inl ⟨h0, lt_of_lt_of_le (h.1 ▸ hlt) hle⟩,
        halign⟩ _).trans h.2⟩)
    hincr rs1 ⟨rfl, rfl⟩
  exact h

theorem Dispatched.fence (h : Dispatched cfg t d rs1 rs2 s) (hruns : d.Runs i)
    (hlabel : handlerLabel i = .FENCE) (hu : t.next = u) :
    ∃ e s', execute cfg d rs1 rs2 s = .ok e s' ∧ Ends cfg u e s' := by
  rw [execute_eq cfg _ _ (hruns.label.trans (congrArg some hlabel))]
  refine ⟨Cpu.fence d, s, rfl, hu ▸ h.pass ?_ rfl rfl rfl⟩
  unfold Cpu.fence
  split
  · exact .inl rfl
  · exact .inr rfl

/-- In machine mode each privileged instruction has its handler. -/
theorem Dispatched.priv (h : Dispatched cfg t d rs1 rs2 s) (hruns : d.Runs i)
    (hlabel : handlerLabel i = .PRIV) {p : Priv × Int} (hp : handlerPriv i = some p)
    (hmode : p.2 ≤ 3) :
    execute cfg d rs1 rs2 s = privHandler cfg d.imm s ∧ Cpu.priv d.imm s.privilegeMode = p.1 := by
  have hpriv := hruns.priv p hp s.privilegeMode (by rw [h.shows.privilegeMode]; decide)
  rw [if_neg (by rw [h.shows.privilegeMode]; omega)] at hpriv
  exact ⟨by rw [execute_eq cfg _ _ (hruns.label.trans (congrArg some hlabel))]; rfl, hpriv⟩

theorem Dispatched.wfi (h : Dispatched cfg t d rs1 rs2 s) (hruns : d.Runs .wfi)
    (hu : t.execute cfg.platform .wfi = some u) :
    ∃ e s', execute cfg d rs1 rs2 s = .ok e s' ∧ Ends cfg u e s' := by
  cases hu
  obtain ⟨hx, hpriv⟩ := h.priv hruns rfl rfl (by decide)
  refine ⟨Cpu.wfi s, s, ?_, h.pass ?_ rfl rfl rfl⟩
  · rw [hx, privHandler, bind_get, hpriv]
    rfl
  · unfold Cpu.wfi
    split
    · exact .inl rfl
    · exact .inr rfl

theorem Dispatched.sfenceVma {r1 r2 : Reg} (h : Dispatched cfg t d rs1 rs2 s)
    (hruns : d.Runs (.sfenceVma r1 r2)) (hu : t.execute cfg.platform (.sfenceVma r1 r2) = some u) :
    ∃ e s', execute cfg d rs1 rs2 s = .ok e s' ∧ Ends cfg u e s' := by
  cases hu
  obtain ⟨hx, hpriv⟩ := h.priv hruns rfl rfl (by decide)
  have hmode : ¬(s.privilegeMode = 0b01 ∧ opAnd s.csrMstatus 0b100000000000000000000 ≠ 0) := by
    rw [h.shows.privilegeMode]
    exact fun heq => absurd heq.1 (by decide)
  refine ⟨.endInstruction, { s with icacheVar := .null }, ?_, h.pass (.inl rfl) rfl rfl rfl⟩
  rw [hx, privHandler, bind_get, hpriv]
  change Cpu.sfenceVma s = _
  rw [Cpu.sfenceVma, bind_get, if_neg hmode]
  rfl

theorem Dispatched.mlogsys {r1 : Reg} {funct12 : BitVec 12} (h : Dispatched cfg t d rs1 rs2 s)
    (hincr : ∀ i, s.procs cfg.incr i = successor i) (hruns : d.Runs (.mlogsys r1 funct12))
    (hu : t.execute cfg.platform (.mlogsys r1 funct12) = some u) :
    ∃ e s', execute cfg d rs1 rs2 s = .ok e s' ∧ Ends cfg u e s' := by
  cases hu
  have hmode : ¬s.privilegeMode < 0b11 := by
    rw [h.shows.privilegeMode]
    decide
  obtain ⟨imm, procs, heq, hprocs⟩ := mlogsysHart_frame hincr rs1
  refine ⟨.endInstruction, mlogsysHart cfg rs1 s, ?_,
    h.pass (.inl rfl) ?_ ?_ (mlogsysHart_memState hincr rs1)⟩
  · rw [execute_eq cfg _ _ hruns.label]
    change Cpu.mlogsys cfg rs1 s = _
    rw [Cpu.mlogsys, bind_get, if_neg hmode]
    rfl
  · rw [heq]
  · rw [heq]
    exact congrArg (fun csrs =>
      ((s.registers, s.privilegeMode, s.effectivePrivilegeMode), s.csrMie, s.csrMinstret,
      (csrs minstrethCsr).toNum)) hprocs

/-! ## Every instruction -/

/-- An instruction that the state can execute ends in its handler, with the state after it. -/
theorem Dispatched.execute (h : Dispatched cfg t d rs1 rs2 s)
    (hincr : ∀ i, s.procs cfg.incr i = successor i) (hruns : d.Runs i)
    (hu : t.execute cfg.platform i = some u) :
    ∃ e s', Cpu.execute cfg d rs1 rs2 s = .ok e s' ∧ Ends cfg u e s' := by
  have halu {rd : Reg} {v : Word} (hrd : i.rd = some rd)
      (hv : i.result t.pc (i.rs1.elim 0 t.registers) (i.rs2.elim 0 t.registers) = some v)
      (hu : (t.set rd v).next = u) :
      ∃ e s', Cpu.execute cfg d rs1 rs2 s = .ok e s' ∧ Ends cfg u e s' := hu ▸ h.alu hruns hrd hv
  cases i with
  | lui => exact halu rfl rfl (Option.some.inj hu)
  | auipc => exact halu rfl rfl (Option.some.inj hu)
  | opImm => exact halu rfl rfl (Option.some.inj hu)
  | shiftImm => exact halu rfl rfl (Option.some.inj hu)
  | opReg => exact halu rfl rfl (Option.some.inj hu)
  | jal => exact h.jal hruns hu
  | jalr => exact h.jalr hruns hu
  | branch => exact h.branch hruns hu
  | load => exact h.load hruns hu
  | store => exact h.store hruns hu
  | lr => exact h.lr hruns hu
  | sc => exact h.sc hruns hu
  | amo => exact h.amo hruns hu
  | fence => exact h.fence hruns rfl (Option.some.inj hu)
  | fenceI => exact h.fence hruns rfl (Option.some.inj hu)
  | wfi => exact h.wfi hruns hu
  | sfenceVma => exact h.sfenceVma hruns hu
  | mlogsys => exact h.mlogsys hincr hruns hu
  | ecall => cases hu
  | ebreak => cases hu
  | sret => cases hu
  | mret => cases hu
  | csr => cases hu

/-! ## The fetch -/

/-- The bytes at pc are the word that the worker fetches. -/
theorem Shows.storedWord (h : Shows cfg t s) (hfetch : t.Fetches cfg.platform i) :
    storedWord cfg s.procs t.pc.toNat = i.encode.toNat ∧
      ((t.pc.toNat : Int) < cfg.romSize ∨ InRam cfg t.pc.toNat) ∧ t.pc.toNat + 4 < 2 ^ 32 := by
  obtain ⟨halign, hread⟩ := hfetch
  have hrom := cfg.romSize_le_ramStart
  have hsize := cfg.ramSize_le
  have hword {w : Int} (hw : IsWord w) {n : Nat}
      (h : w.toNat / 256 ^ ((t.pc.toNat : Int) % 4).toNat % 256 ^ 4 = n) : w = n := by
    obtain ⟨h0, hlt⟩ := hw
    rw [show ((t.pc.toNat : Int) % 4).toNat = 0 by omega] at h
    norm_num at h
    omega
  unfold State.read at hread
  split at hread
  · rename_i hin
    obtain ⟨h0, hlt⟩ : 0 ≤ (t.pc.toNat : Int) ∧ (t.pc.toNat : Int) + 4 ≤ cfg.romSize := hin
    have heq := Option.some.inj hread
    change (romBytes cfg).read t.pc.toNat 4 = _ at heq
    rw [read_romBytes cfg ⟨h0, by omega⟩ (by omega)] at heq
    unfold ramStart at hrom
    refine ⟨?_, Or.inl (by omega), by omega⟩
    rw [Cpu.storedWord, if_pos (by omega)]
    exact hword (loadRomWordUnchecked_word cfg _) heq
  · split at hread
    · rename_i hin
      obtain ⟨h0, hlt⟩ : ramStart ≤ (t.pc.toNat : Int) ∧ (t.pc.toNat : Int) + 4 ≤ cfg.ramEnd := hin
      have hram : InRam cfg t.pc.toNat := ⟨h0, by omega⟩
      have heq := Option.some.inj hread
      rw [← h.memory] at heq
      change (ramBytes cfg s.procs).read t.pc.toNat 4 = _ at heq
      rw [read_ramBytes cfg s.procs hram (by omega)] at heq
      unfold PageConfig.ramEnd ramStart at hlt
      refine ⟨?_, Or.inr hram, by omega⟩
      rw [Cpu.storedWord, if_neg (by omega)]
      exact hword (loadRamWordUnchecked_word cfg _ _) heq
    · cases hread

/-- In machine mode pc is a physical address. -/
theorem fetchAddress_machine (hmode : s.privilegeMode = 0b11) :
    fetchAddress cfg (fetchHart s) = .ok s.pc (fetchHart s) := by
  have hle : ¬(fetchHart s).privilegeMode < 0b11 := by
    change ¬s.privilegeMode < 0b11
    omega
  rw [fetchAddress, bind_get, if_neg hle]
  rfl

/-- In machine mode a page that a fetch resolves is at its own address. -/
def Resolved.Flat (r : Resolved) : Prop := r.privilegeMode = 0b11 → r.virtualPage = 4096 * r.page

theorem Machine.resolved_flat {m : Machine} (hpc : 0 ≤ m.hart.pc ∧ m.hart.pc < 2 ^ 32) {r : Resolved}
    (h : m.resolved cfg = some r) : r.Flat := by
  intro hmode
  unfold Machine.resolved at h
  split at h
  · split at h
    · split at h
      · rename_i ha
        obtain rfl := Option.some.inj h
        rw [fetchAddress_machine hmode] at ha
        obtain ⟨rfl, rfl⟩ := EStateM.Result.ok.inj ha
        dsimp only
        rw [opAnd_page]
        omega
      · cases h
    · cases h
  · cases h

theorem Fetches.visible (h : Fetches cfg s d s') :
    visible cfg s' = Cpu.visible cfg s ∧ memState cfg s' = memState cfg s ∧
    s'.pc = s.pc ∧ s'.nextPc = s.pc + 4 ∧
      s'.registers = s.registers := by
  have hload {a : Int} {s₁ : Hart} (ha : fetchAddress cfg (fetchHart s) = .ok a s₁) :=
    (wp_ok (fetchAddress_frame cfg (fetchHart s)) ha).1
  cases h with
  | cursor => exact ⟨rfl, rfl, rfl, rfl, rfl⟩
  | icache _ ha =>
      obtain ⟨_, _, _, rfl, _⟩ := hload ha
      exact ⟨rfl, rfl, rfl, rfl, rfl⟩
  | slow _ ha =>
      obtain ⟨_, _, _, rfl, _⟩ := hload ha
      exact ⟨rfl, rfl, rfl, rfl, rfl⟩

theorem Shows.fetch {m : Machine} {o : Option Resolved} (h : Shows cfg t m.hart)
    (hpc : m.hart.pc = t.pc.toNat) (hsound : SoundMachine cfg m) (hcoherent : Coherent cfg m.hart)
    (htracks : CursorTracks cfg o m.hart.pc m.hart)
    (hflat : ∀ r, (m.resolved cfg).or o = some r → r.Flat) (hpoint : m.point = .main)
    (hfetch : t.Fetches cfg.platform i) :
    ∃ d s', Cpu.fetch cfg m.hart = .ok (some d) s' ∧ d.Runs i ∧
      Dispatched cfg t d (s'.registers d.rs1Id) (s'.registers d.rs2Id) s' := by
  obtain ⟨hword, hcode, hlt⟩ := h.storedWord hfetch
  have hfetches := fetch_correct cfg m.hart
  cases hx : Cpu.fetch cfg m.hart with
  | error tr s' =>
      obtain ⟨-, hraises⟩ := wp_error hfetches hx
      have ha : fetchAddress cfg (fetchHart m.hart) = .ok m.hart.pc (fetchHart m.hart) :=
        fetchAddress_machine h.privilegeMode
      cases hraises with
      | walk herror =>
          rw [ha] at herror
          cases herror
      | denied hok hdenied =>
          rw [ha] at hok
          obtain ⟨rfl, -⟩ := EStateM.Result.ok.inj hok
          rw [hpc] at hdenied
          exact (hcode.elim (not_lt.mpr hdenied.1) hdenied.2).elim
  | ok d? s' =>
      obtain ⟨d, rfl, hd⟩ := wp_ok hfetches hx hsound.hart
      obtain ⟨hvisible, hmemory, hpc', hnext, hregisters⟩ := hd.visible
      obtain ⟨hat, r, hr, hcurrent, hfrom⟩ := fetch_fromMemory hsound hcoherent htracks hpoint hx
      have haddress : r.address m.hart.pc = t.pc.toNat := by
        have hbase := hflat r hr (hcurrent.privilegeMode.symm.trans h.privilegeMode)
        have hpage := hcurrent.virtualPage
        rw [hpc, opAnd_page] at hpage
        unfold Resolved.address
        rw [hpc]
        omega
      rw [haddress] at hfrom
      have hsound' : SoundMachine cfg { m with point := dispatch (some d) s', hart := s' } := by
        have hstores : StoresOk cfg m .step := by
          rw [StoresOk, hpoint]
          trivial
        have h := hsound.step hstores
        rw [Machine.step, hpoint, stepPoint, hx] at h
        exact h
      have hvalid : d.Valid := hsound'.point.1
      have hreg {k : Int} (hk : 0 ≤ k ∧ k < 32) : ∃ r : Reg, k = r.toNat ∧
          s'.registers k = (t.registers r).toNat := by
        have hk' : k = (BitVec.ofNat 5 k.toNat).toNat := by
          rw [BitVec.toNat_ofNat]
          omega
        refine ⟨BitVec.ofNat 5 k.toNat, hk', ?_⟩
        rw [hregisters, ← h.registers, ← hk']
      exact ⟨d, s', rfl, hfrom.runs i hword, h.of_visible hvisible hmemory,
        hpc'.trans hpc, by rw [hnext, hpc], hlt,
        hsound'.hart.cursor.var, hreg hvalid.rs1Id, hreg hvalid.rs2Id⟩

end Mlogv32.Cpu
