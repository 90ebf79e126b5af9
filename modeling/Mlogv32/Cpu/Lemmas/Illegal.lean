import Mlogv32.Cpu.Lemmas.Encoding

/-!
# Words that the decoder accepts

A word is decoded as illegal, is an instruction, or is one of four kinds of words that leave the
check of a field to the handler or to nobody.
-/

namespace Mlogv32.Cpu
open Mlog Isa

theorem opcode_cases (op : BitVec 5) :
    op ∈ ([0b00000, 0b00010, 0b00011, 0b00100, 0b00101, 0b01000, 0b01011, 0b01100, 0b01101, 0b11000,
      0b11001, 0b11011, 0b11100] : List (BitVec 5)) ∨
    labels (op.toNat * 4) = some .decode_illegal_instruction := by
  have h : ∀ i : Fin 32, BitVec.ofFin i ∈ ([0b00000, 0b00010, 0b00011, 0b00100, 0b00101, 0b01000,
      0b01011, 0b01100, 0b01101, 0b11000, 0b11001, 0b11011, 0b11100] : List (BitVec 5)) ∨
      labels ((i : Nat) * 4 : Int) = some .decode_illegal_instruction := by
    decide +kernel
  exact h op.toFin

theorem funct3_cases (funct3 : BitVec 3) :
    funct3 = 0 ∨ funct3 = 1 ∨ funct3 = 2 ∨ funct3 = 3 ∨ funct3 = 4 ∨ funct3 = 5 ∨ funct3 = 6 ∨
      funct3 = 7 := by
  decide +revert

section Classes

variable (funct7 : BitVec 7) (rs2 rs1 : Reg) (funct3 : BitVec 3) (rd : Reg) (imm : Int)

theorem load_legal :
    (decode (encodeR funct7 rs2 rs1 funct3 rd (0b00000#5 ++ 0b11#2)).toNat imm).opId = 0 ∨
      Legal (encodeR funct7 rs2 rs1 funct3 rd (0b00000#5 ++ 0b11#2)) := by
  rw [decode_LOAD, encodeR_eq_encodeI]
  rcases funct3_cases funct3 with rfl | rfl | rfl | rfl | rfl | rfl | rfl | rfl
  · exact Or.inr ⟨.load .lb rd rs1 (funct7 ++ rs2), rfl⟩
  · exact Or.inr ⟨.load .lh rd rs1 (funct7 ++ rs2), rfl⟩
  · exact Or.inr ⟨.load .lw rd rs1 (funct7 ++ rs2), rfl⟩
  · exact Or.inl rfl
  · exact Or.inr ⟨.load .lbu rd rs1 (funct7 ++ rs2), rfl⟩
  · exact Or.inr ⟨.load .lhu rd rs1 (funct7 ++ rs2), rfl⟩
  · exact Or.inl rfl
  · exact Or.inl rfl

theorem store_legal :
    (decode (encodeR funct7 rs2 rs1 funct3 rd (0b01000#5 ++ 0b11#2)).toNat imm).opId = 0 ∨
      Legal (encodeR funct7 rs2 rs1 funct3 rd (0b01000#5 ++ 0b11#2)) := by
  rw [decode_STORE, encodeR_eq_encodeS]
  rcases funct3_cases funct3 with rfl | rfl | rfl | rfl | rfl | rfl | rfl | rfl
  · exact Or.inr ⟨.store .sb rs1 rs2 (funct7 ++ rd), rfl⟩
  · exact Or.inr ⟨.store .sh rs1 rs2 (funct7 ++ rd), rfl⟩
  · exact Or.inr ⟨.store .sw rs1 rs2 (funct7 ++ rd), rfl⟩
  all_goals exact Or.inl rfl

theorem branch_legal :
    (decode (encodeR funct7 rs2 rs1 funct3 rd (0b11000#5 ++ 0b11#2)).toNat imm).opId = 0 ∨
      Legal (encodeR funct7 rs2 rs1 funct3 rd (0b11000#5 ++ 0b11#2)) := by
  obtain ⟨n, hn⟩ := exists_encodeB funct7 rs2 rs1 funct3 rd (0b11000#5 ++ 0b11#2)
  rw [decode_BRANCH, hn]
  rcases funct3_cases funct3 with rfl | rfl | rfl | rfl | rfl | rfl | rfl | rfl
  · exact Or.inr ⟨.branch .beq rs1 rs2 n, rfl⟩
  · exact Or.inr ⟨.branch .bne rs1 rs2 n, rfl⟩
  · exact Or.inl rfl
  · exact Or.inl rfl
  · exact Or.inr ⟨.branch .blt rs1 rs2 n, rfl⟩
  · exact Or.inr ⟨.branch .bge rs1 rs2 n, rfl⟩
  · exact Or.inr ⟨.branch .bltu rs1 rs2 n, rfl⟩
  · exact Or.inr ⟨.branch .bgeu rs1 rs2 n, rfl⟩

theorem miscMem_legal :
    (decode (encodeR funct7 rs2 rs1 funct3 rd (0b00011#5 ++ 0b11#2)).toNat imm).opId = 0 ∨
      Legal (encodeR funct7 rs2 rs1 funct3 rd (0b00011#5 ++ 0b11#2)) := by
  rw [decode_MISC_MEM, encodeR_eq_encodeI]
  rcases funct3_cases funct3 with rfl | rfl | rfl | rfl | rfl | rfl | rfl | rfl
  · exact Or.inr ⟨.fence rd rs1 (funct7 ++ rs2), rfl⟩
  · exact Or.inr ⟨.fenceI rd rs1 (funct7 ++ rs2), rfl⟩
  all_goals exact Or.inl rfl

/-- The checks of funct7 are on its value. -/
theorem funct7_eq_iff (n : Nat) (hn : n < 128) :
    (funct7.toNat : Int) = n ↔ funct7 = BitVec.ofNat 7 n := by
  rw [← BitVec.toNat_inj, BitVec.toNat_ofNat, Nat.mod_eq_of_lt hn]
  omega

theorem opImm_legal :
    (decode (encodeR funct7 rs2 rs1 funct3 rd (0b00100#5 ++ 0b11#2)).toNat imm).opId = 0 ∨
      Legal (encodeR funct7 rs2 rs1 funct3 rd (0b00100#5 ++ 0b11#2)) := by
  rw [decode_OP_IMM]
  rcases funct3_cases funct3 with rfl | rfl | rfl | rfl | rfl | rfl | rfl | rfl
  · exact Or.inr ⟨.opImm .addi rd rs1 (funct7 ++ rs2), rfl⟩
  · by_cases h0 : (funct7.toNat : Int) = 0
    · obtain rfl := (funct7_eq_iff funct7 0 (by decide)).mp h0
      exact Or.inr ⟨.shiftImm .slli rd rs1 rs2, rfl⟩
    · left
      change (if (funct7.toNat : Int) = 0 then _ else _ : Decoded).opId = 0
      rw [if_neg h0]
      rfl
  · exact Or.inr ⟨.opImm .slti rd rs1 (funct7 ++ rs2), rfl⟩
  · exact Or.inr ⟨.opImm .sltiu rd rs1 (funct7 ++ rs2), rfl⟩
  · exact Or.inr ⟨.opImm .xori rd rs1 (funct7 ++ rs2), rfl⟩
  · by_cases h0 : (funct7.toNat : Int) = 0
    · obtain rfl := (funct7_eq_iff funct7 0 (by decide)).mp h0
      exact Or.inr ⟨.shiftImm .srli rd rs1 rs2, rfl⟩
    · by_cases h32 : (funct7.toNat : Int) = 32
      · obtain rfl := (funct7_eq_iff funct7 32 (by decide)).mp h32
        exact Or.inr ⟨.shiftImm .srai rd rs1 rs2, rfl⟩
      · left
        change (if (funct7.toNat : Int) = 0 then _ else if (funct7.toNat : Int) = 32 then _ else _
          : Decoded).opId = 0
        rw [if_neg h0, if_neg h32]
        rfl
  · exact Or.inr ⟨.opImm .ori rd rs1 (funct7 ++ rs2), rfl⟩
  · exact Or.inr ⟨.opImm .andi rd rs1 (funct7 ++ rs2), rfl⟩

theorem opReg_legal :
    (decode (encodeR funct7 rs2 rs1 funct3 rd (0b01100#5 ++ 0b11#2)).toNat imm).opId = 0 ∨
      Legal (encodeR funct7 rs2 rs1 funct3 rd (0b01100#5 ++ 0b11#2)) := by
  rw [decode_OP]
  by_cases h0 : (funct7.toNat : Int) = 0
  · obtain rfl := (funct7_eq_iff funct7 0 (by decide)).mp h0
    right
    rcases funct3_cases funct3 with rfl | rfl | rfl | rfl | rfl | rfl | rfl | rfl
    · exact ⟨.opReg .add rd rs1 rs2, rfl⟩
    · exact ⟨.opReg .sll rd rs1 rs2, rfl⟩
    · exact ⟨.opReg .slt rd rs1 rs2, rfl⟩
    · exact ⟨.opReg .sltu rd rs1 rs2, rfl⟩
    · exact ⟨.opReg .xor rd rs1 rs2, rfl⟩
    · exact ⟨.opReg .srl rd rs1 rs2, rfl⟩
    · exact ⟨.opReg .or rd rs1 rs2, rfl⟩
    · exact ⟨.opReg .and rd rs1 rs2, rfl⟩
  · by_cases h1 : (funct7.toNat : Int) = 1
    · obtain rfl := (funct7_eq_iff funct7 1 (by decide)).mp h1
      right
      rcases funct3_cases funct3 with rfl | rfl | rfl | rfl | rfl | rfl | rfl | rfl
      · exact ⟨.opReg .mul rd rs1 rs2, rfl⟩
      · exact ⟨.opReg .mulh rd rs1 rs2, rfl⟩
      · exact ⟨.opReg .mulhsu rd rs1 rs2, rfl⟩
      · exact ⟨.opReg .mulhu rd rs1 rs2, rfl⟩
      · exact ⟨.opReg .div rd rs1 rs2, rfl⟩
      · exact ⟨.opReg .divu rd rs1 rs2, rfl⟩
      · exact ⟨.opReg .rem rd rs1 rs2, rfl⟩
      · exact ⟨.opReg .remu rd rs1 rs2, rfl⟩
    · by_cases h32 : (funct7.toNat : Int) = 32
      · obtain rfl := (funct7_eq_iff funct7 32 (by decide)).mp h32
        rcases funct3_cases funct3 with rfl | rfl | rfl | rfl | rfl | rfl | rfl | rfl
        · exact Or.inr ⟨.opReg .sub rd rs1 rs2, rfl⟩
        · exact Or.inl rfl
        · exact Or.inl rfl
        · exact Or.inl rfl
        · exact Or.inl rfl
        · exact Or.inr ⟨.opReg .sra rd rs1 rs2, rfl⟩
        · exact Or.inl rfl
        · exact Or.inl rfl
      · left
        change (if (funct7.toNat : Int) = 0 then _ else if (funct7.toNat : Int) = 1 then _ else
          if (funct7.toNat : Int) ≠ 32 then _ else _ : Decoded).opId = 0
        rw [if_neg h0, if_neg h1, if_pos h32]
        rfl

/-- LR.W does not check that its rs2 field is 0. -/
theorem amo_legal :
    (decode (encodeR funct7 rs2 rs1 funct3 rd (0b01011#5 ++ 0b11#2)).toNat imm).opId = 0 ∨
      Legal (encodeR funct7 rs2 rs1 funct3 rd (0b01011#5 ++ 0b11#2)) ∨
      (rs2 ≠ 0 ∧ ∃ order : BitVec 2,
        encodeR funct7 rs2 rs1 funct3 rd (0b01011#5 ++ 0b11#2) =
          encodeR (0b00010#5 ++ order) rs2 rs1 0b010 rd opcodeAMO) := by
  rw [decode_AMO]
  by_cases h3 : funct3 = 0b010
  · subst h3
    obtain ⟨funct5, order, rfl⟩ := exists_append (m := 5) (n := 2) funct7
    rw [decodeAMO_funct5]
    have hcases : funct5 ∈ ([0, 1, 2, 3, 4, 8, 12, 16, 20, 24, 28] : List (BitVec 5)) ∨
        (¬(funct5.toNat : Int) ≤ 3 ∧ ¬(funct5.toNat : Int) % 4 = 0) := by
      decide +revert
    rcases hcases with hmem | ⟨hle, hmod⟩
    · right
      simp only [List.mem_cons, List.not_mem_nil, or_false] at hmem
      rcases hmem with rfl | rfl | rfl | rfl | rfl | rfl | rfl | rfl | rfl | rfl | rfl
      · exact Or.inl ⟨.amo .amoadd order rd rs1 rs2, rfl⟩
      · exact Or.inl ⟨.amo .amoswap order rd rs1 rs2, rfl⟩
      · by_cases h2 : rs2 = 0
        · subst h2
          exact Or.inl ⟨.lr order rd rs1, rfl⟩
        · exact Or.inr ⟨h2, order, rfl⟩
      · exact Or.inl ⟨.sc order rd rs1 rs2, rfl⟩
      · exact Or.inl ⟨.amo .amoxor order rd rs1 rs2, rfl⟩
      · exact Or.inl ⟨.amo .amoor order rd rs1 rs2, rfl⟩
      · exact Or.inl ⟨.amo .amoand order rd rs1 rs2, rfl⟩
      · exact Or.inl ⟨.amo .amomin order rd rs1 rs2, rfl⟩
      · exact Or.inl ⟨.amo .amomax order rd rs1 rs2, rfl⟩
      · exact Or.inl ⟨.amo .amominu order rd rs1 rs2, rfl⟩
      · exact Or.inl ⟨.amo .amomaxu order rd rs1 rs2, rfl⟩
    · left
      rw [if_neg hle, if_neg hmod]
      rfl
  · left
    rcases funct3_cases funct3 with rfl | rfl | rfl | rfl | rfl | rfl | rfl | rfl
    · rfl
    · rfl
    · exact absurd rfl h3
    all_goals rfl

theorem system_legal :
    (decode (encodeR funct7 rs2 rs1 funct3 rd (0b11100#5 ++ 0b11#2)).toNat imm).opId = 0 ∨
      Legal (encodeR funct7 rs2 rs1 funct3 rd (0b11100#5 ++ 0b11#2)) ∨
      encodeR funct7 rs2 rs1 funct3 rd (0b11100#5 ++ 0b11#2) =
        encodeI (funct7 ++ rs2) rs1 0b000 rd opcodeSYSTEM := by
  rw [decode_SYSTEM, encodeR_eq_encodeI]
  rcases funct3_cases funct3 with rfl | rfl | rfl | rfl | rfl | rfl | rfl | rfl
  · exact Or.inr (Or.inr rfl)
  · exact Or.inr (Or.inl ⟨.csr .csrrw rd rs1 (funct7 ++ rs2), rfl⟩)
  · exact Or.inr (Or.inl ⟨.csr .csrrs rd rs1 (funct7 ++ rs2), rfl⟩)
  · exact Or.inr (Or.inl ⟨.csr .csrrc rd rs1 (funct7 ++ rs2), rfl⟩)
  · exact Or.inl rfl
  · exact Or.inr (Or.inl ⟨.csr .csrrwi rd rs1 (funct7 ++ rs2), rfl⟩)
  · exact Or.inr (Or.inl ⟨.csr .csrrsi rd rs1 (funct7 ++ rs2), rfl⟩)
  · exact Or.inr (Or.inl ⟨.csr .csrrci rd rs1 (funct7 ++ rs2), rfl⟩)

/-- MLOGSYS does not check that its rd field is 0. -/
theorem custom0_legal :
    (decode (encodeR funct7 rs2 rs1 funct3 rd (0b00010#5 ++ 0b11#2)).toNat imm).opId = 0 ∨
      Legal (encodeR funct7 rs2 rs1 funct3 rd (0b00010#5 ++ 0b11#2)) ∨
      (rd ≠ 0 ∧ encodeR funct7 rs2 rs1 funct3 rd (0b00010#5 ++ 0b11#2) =
        encodeI (funct7 ++ rs2) rs1 0b000 rd 0b0001011) := by
  rw [decode_custom_0, encodeR_eq_encodeI]
  rcases funct3_cases funct3 with rfl | rfl | rfl | rfl | rfl | rfl | rfl | rfl
  · right
    by_cases hd : rd = 0
    · subst hd
      exact Or.inl ⟨.mlogsys rs1 (funct7 ++ rs2), rfl⟩
    · exact Or.inr ⟨hd, rfl⟩
  all_goals exact Or.inl rfl

/-- JALR does not check funct3. -/
theorem jalr_legal :
    Legal (encodeR funct7 rs2 rs1 funct3 rd (0b11001#5 ++ 0b11#2)) ∨ funct3 ≠ 0 := by
  by_cases h3 : funct3 = 0
  · subst h3
    exact Or.inl ⟨.jalr rd rs1 (funct7 ++ rs2), rfl⟩
  · exact Or.inr h3

end Classes

/-- The words that the decoder takes although they are no instruction. The check of the privileged
instructions is left to PRIV. -/
inductive Undefined : Word → Prop
  | jalr (n : BitVec 12) (rs1 : Reg) (funct3 : BitVec 3) (rd : Reg) (h : funct3 ≠ 0) :
      Undefined (encodeI n rs1 funct3 rd 0b1100111)
  | lr (order : BitVec 2) (rs2 rs1 rd : Reg) (h : rs2 ≠ 0) :
      Undefined (encodeR (0b00010#5 ++ order) rs2 rs1 0b010 rd opcodeAMO)
  | priv (n : BitVec 12) (rs1 rd : Reg) : Undefined (encodeI n rs1 0b000 rd opcodeSYSTEM)
  | mlogsys (n : BitVec 12) (rs1 rd : Reg) (h : rd ≠ 0) :
      Undefined (encodeI n rs1 0b000 rd 0b0001011)

theorem decode_cases (w : Word) (imm : Int) :
    (decode w.toNat imm).opId = 0 ∨ Legal w ∨ Undefined w := by
  rcases word_cases w with ⟨funct7, rs2, rs1, funct3, rd, op, rfl⟩ | hlow
  · rcases opcode_cases op with hmem | hillegal
    · simp only [List.mem_cons, List.not_mem_nil, or_false] at hmem
      rcases hmem with rfl | rfl | rfl | rfl | rfl | rfl | rfl | rfl | rfl | rfl | rfl | rfl | rfl
      · exact (load_legal funct7 rs2 rs1 funct3 rd imm).imp id Or.inl
      · rcases custom0_legal funct7 rs2 rs1 funct3 rd imm with h | h | ⟨hd, h⟩
        · exact Or.inl h
        · exact Or.inr (Or.inl h)
        · exact Or.inr (Or.inr (h ▸ .mlogsys _ _ _ hd))
      · exact (miscMem_legal funct7 rs2 rs1 funct3 rd imm).imp id Or.inl
      · exact (opImm_legal funct7 rs2 rs1 funct3 rd imm).imp id Or.inl
      · exact Or.inr (Or.inl ⟨.auipc rd (funct7 ++ rs2 ++ rs1 ++ funct3), rfl⟩)
      · exact (store_legal funct7 rs2 rs1 funct3 rd imm).imp id Or.inl
      · rcases amo_legal funct7 rs2 rs1 funct3 rd imm with h | h | ⟨h2, order, h⟩
        · exact Or.inl h
        · exact Or.inr (Or.inl h)
        · exact Or.inr (Or.inr (h ▸ .lr order _ _ _ h2))
      · exact (opReg_legal funct7 rs2 rs1 funct3 rd imm).imp id Or.inl
      · exact Or.inr (Or.inl ⟨.lui rd (funct7 ++ rs2 ++ rs1 ++ funct3), rfl⟩)
      · exact (branch_legal funct7 rs2 rs1 funct3 rd imm).imp id Or.inl
      · rcases jalr_legal funct7 rs2 rs1 funct3 rd with h | h3
        · exact Or.inr (Or.inl h)
        · exact Or.inr (Or.inr (.jalr (funct7 ++ rs2) rs1 funct3 rd h3))
      · obtain ⟨n, hn⟩ := exists_scrambleJ (funct7 ++ rs2 ++ rs1 ++ funct3)
        refine Or.inr (Or.inl ⟨.jal rd n, ?_⟩)
        rw [Instr.encode, encodeJ_eq, hn]
        rfl
      · rcases system_legal funct7 rs2 rs1 funct3 rd imm with h | h | h
        · exact Or.inl h
        · exact Or.inr (Or.inl h)
        · exact Or.inr (Or.inr (h ▸ .priv _ _ _))
    · left
      rw [decode_encodeR, hillegal]
      rfl
  · left
    rw [decode_compressed (by omega)]
    rfl

/-! ## Words that are no instruction -/

theorem not_legal_jalr {n : BitVec 12} {rs1 : Reg} {funct3 : BitVec 3} {rd : Reg} (h : funct3 ≠ 0) :
    ¬Legal (encodeI n rs1 funct3 rd 0b1100111) := by
  rintro ⟨i, hi⟩
  cases i
  all_goals
    simp only [Instr.encode, encodePriv, encodeI_eq, encodeS_eq, encodeB_eq, encodeU_eq, encodeJ_eq,
      encodeR_inj, opcodeAMO, opcodeSYSTEM, opcodeMISC_MEM] at hi
    obtain ⟨-, -, -, h3, -, hop⟩ := hi
    first
    | exact absurd hop (by decide)
    | exact h h3.symm

theorem not_legal_lr {order : BitVec 2} {rs2 rs1 rd : Reg} (h : rs2 ≠ 0) :
    ¬Legal (encodeR (0b00010#5 ++ order) rs2 rs1 0b010 rd opcodeAMO) := by
  rintro ⟨i, hi⟩
  cases i
  case amo op order' rd' rs1' rs2' =>
    rw [Instr.encode, encodeR_inj, append_inj] at hi
    revert hi
    cases op <;> simp [AmoOp.funct5]
  case sc =>
    rw [Instr.encode, encodeR_inj, append_inj] at hi
    exact absurd hi.1.1 (by decide)
  all_goals
    simp only [Instr.encode, encodePriv, encodeI_eq, encodeS_eq, encodeB_eq, encodeU_eq, encodeJ_eq,
      encodeR_inj, opcodeAMO, opcodeSYSTEM, opcodeMISC_MEM] at hi
    obtain ⟨-, h2, -, -, -, hop⟩ := hi
    first
    | exact absurd hop (by decide)
    | exact h h2.symm

/-- An instruction with opcode SYSTEM and funct3 0 has no operands, or is SFENCE.VMA. -/
theorem legal_system {n : BitVec 12} {rs1 rd : Reg}
    (h : Legal (encodeI n rs1 0b000 rd opcodeSYSTEM)) :
    rd = 0 ∧ (rs1 = 0 ∨ n.extractLsb' 5 7 = 0b0001001) := by
  obtain ⟨i, hi⟩ := h
  cases i
  case csr op _ _ _ =>
    rw [Instr.encode, encodeI_eq, encodeI_eq, encodeR_inj] at hi
    obtain ⟨-, -, -, h3, -, -⟩ := hi
    revert h3
    cases op <;> exact fun h3 => absurd h3 (by decide)
  all_goals
    simp only [Instr.encode, encodePriv, encodeI_eq, encodeS_eq, encodeB_eq, encodeU_eq, encodeJ_eq,
      encodeR_inj, opcodeAMO, opcodeSYSTEM, opcodeMISC_MEM] at hi
    obtain ⟨h7, -, h1, -, hd, hop⟩ := hi
    first
    | exact absurd hop (by decide)
    | exact ⟨hd.symm, Or.inl h1.symm⟩
    | exact ⟨hd.symm, Or.inr h7.symm⟩

theorem not_legal_mlogsys {n : BitVec 12} {rs1 rd : Reg} (h : rd ≠ 0) :
    ¬Legal (encodeI n rs1 0b000 rd 0b0001011) := by
  rintro ⟨i, hi⟩
  cases i
  all_goals
    simp only [Instr.encode, encodePriv, encodeI_eq, encodeS_eq, encodeB_eq, encodeU_eq, encodeJ_eq,
      encodeR_inj, opcodeAMO, opcodeSYSTEM, opcodeMISC_MEM] at hi
    obtain ⟨-, -, -, -, hd, hop⟩ := hi
    first
    | exact absurd hop (by decide)
    | exact h hd.symm

end Mlogv32.Cpu
