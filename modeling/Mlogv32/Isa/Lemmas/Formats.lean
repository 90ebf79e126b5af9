import Mlogv32.Isa.Encoding

/-!
# Formats as words of six fields

Every format is a case of the R-type format, and every word has that format.
-/

namespace Mlogv32.Isa

theorem toNat_append_eq {m n : Nat} (x : BitVec m) (y : BitVec n) :
    (x ++ y).toNat = x.toNat * 2 ^ n + y.toNat := by
  rw [BitVec.toNat_append, ← Nat.shiftLeft_add_eq_or_of_lt y.isLt, Nat.shiftLeft_eq]

theorem toNat_extractLsb'_eq {n : Nat} (x : BitVec n) (k m : Nat) :
    (x.extractLsb' k m).toNat = x.toNat / 2 ^ k % 2 ^ m := by
  rw [BitVec.extractLsb'_toNat, Nat.shiftRight_eq_div_pow]

theorem encodeR_toNat (funct7 : BitVec 7) (rs2 rs1 : Reg) (funct3 : BitVec 3) (rd : Reg)
    (opcode : BitVec 7) :
    (encodeR funct7 rs2 rs1 funct3 rd opcode).toNat =
      funct7.toNat * 2 ^ 25 + rs2.toNat * 2 ^ 20 + rs1.toNat * 2 ^ 15 + funct3.toNat * 2 ^ 12 +
        rd.toNat * 2 ^ 7 + opcode.toNat := by
  simp only [encodeR, toNat_append_eq]
  ring

theorem encodeI_eq (imm : BitVec 12) (rs1 : Reg) (funct3 : BitVec 3) (rd : Reg)
    (opcode : BitVec 7) :
    encodeI imm rs1 funct3 rd opcode =
      encodeR (imm.extractLsb' 5 7) (imm.extractLsb' 0 5) rs1 funct3 rd opcode := by
  apply BitVec.eq_of_toNat_eq
  simp only [encodeI, encodeR, toNat_append_eq, toNat_extractLsb'_eq]
  omega

theorem encodeS_eq (imm : BitVec 12) (rs2 rs1 : Reg) (funct3 : BitVec 3) (opcode : BitVec 7) :
    encodeS imm rs2 rs1 funct3 opcode =
      encodeR (imm.extractLsb' 5 7) rs2 rs1 funct3 (imm.extractLsb' 0 5) opcode := rfl

theorem encodeB_eq (imm : BitVec 12) (rs2 rs1 : Reg) (funct3 : BitVec 3) (opcode : BitVec 7) :
    encodeB imm rs2 rs1 funct3 opcode =
      encodeR (imm.extractLsb' 11 1 ++ imm.extractLsb' 4 6) rs2 rs1 funct3
        (imm.extractLsb' 0 4 ++ imm.extractLsb' 10 1) opcode := by
  apply BitVec.eq_of_toNat_eq
  simp only [encodeB, encodeR, toNat_append_eq]
  ring

theorem encodeU_eq (imm : BitVec 20) (rd : Reg) (opcode : BitVec 7) :
    encodeU imm rd opcode =
      encodeR (imm.extractLsb' 13 7) (imm.extractLsb' 8 5) (imm.extractLsb' 3 5)
        (imm.extractLsb' 0 3) rd opcode := by
  apply BitVec.eq_of_toNat_eq
  simp only [encodeU, encodeR, toNat_append_eq, toNat_extractLsb'_eq]
  omega

/-- The order in which a J-type word holds the bits of its offset. -/
def scrambleJ (imm : BitVec 20) : BitVec 20 :=
  imm.extractLsb' 19 1 ++ imm.extractLsb' 0 10 ++ imm.extractLsb' 10 1 ++ imm.extractLsb' 11 8

theorem encodeJ_eq (imm : BitVec 20) (rd : Reg) (opcode : BitVec 7) :
    encodeJ imm rd opcode = encodeU (scrambleJ imm) rd opcode := rfl

/-- The parts of the offset of JAL in the order of the word. -/
theorem scrambleJ_toNat {n : BitVec 20} {a b c d : Nat} (_ha : a < 2) (hb : b < 256) (hc : c < 2)
    (hd : d < 1024) (hn : n.toNat = a * 2 ^ 19 + b * 2 ^ 11 + c * 2 ^ 10 + d) :
    (scrambleJ n).toNat = a * 2 ^ 19 + d * 2 ^ 9 + c * 2 ^ 8 + b := by
  simp only [scrambleJ, toNat_append_eq, toNat_extractLsb'_eq, hn]
  rw [show (a * 2 ^ 19 + b * 2 ^ 11 + c * 2 ^ 10 + d) / 2 ^ 19 % 2 ^ 1 = a by omega,
    show (a * 2 ^ 19 + b * 2 ^ 11 + c * 2 ^ 10 + d) / 2 ^ 0 % 2 ^ 10 = d by omega,
    show (a * 2 ^ 19 + b * 2 ^ 11 + c * 2 ^ 10 + d) / 2 ^ 10 % 2 ^ 1 = c by omega,
    show (a * 2 ^ 19 + b * 2 ^ 11 + c * 2 ^ 10 + d) / 2 ^ 11 % 2 ^ 8 = b by omega]
  ring

/-! ## Words as the encodings of a format -/

theorem exists_append {m n : Nat} (x : BitVec (m + n)) :
    ∃ (a : BitVec m) (b : BitVec n), x = a ++ b := by
  refine ⟨x.extractLsb' n m, x.extractLsb' 0 n, ?_⟩
  apply BitVec.eq_of_toNat_eq
  rw [toNat_append_eq, toNat_extractLsb'_eq, toNat_extractLsb'_eq, pow_zero, Nat.div_one,
    Nat.mod_eq_of_lt (a := x.toNat / 2 ^ n), Nat.div_add_mod']
  have hx := x.isLt
  rw [pow_add, Nat.mul_comm] at hx
  exact Nat.div_lt_of_lt_mul hx

theorem append_extract (x : BitVec 12) : x = x.extractLsb' 5 7 ++ x.extractLsb' 0 5 := by
  apply BitVec.eq_of_toNat_eq
  rw [toNat_append_eq, toNat_extractLsb'_eq, toNat_extractLsb'_eq]
  omega

theorem append_inj {m n : Nat} {a c : BitVec m} {b d : BitVec n} :
    a ++ b = c ++ d ↔ a = c ∧ b = d := by
  constructor
  · intro h
    have hb := b.isLt
    have hd := d.isLt
    have h' := congrArg BitVec.toNat h
    rw [toNat_append_eq, toNat_append_eq] at h'
    have hmod := congrArg (· % 2 ^ n) h'
    simp only [Nat.mul_add_mod_self_right, Nat.mod_eq_of_lt hb, Nat.mod_eq_of_lt hd] at hmod
    have hpos : 0 < 2 ^ n := Nat.two_pow_pos n
    rw [hmod, Nat.add_right_cancel_iff] at h'
    exact ⟨BitVec.eq_of_toNat_eq (Nat.eq_of_mul_eq_mul_right hpos h'), BitVec.eq_of_toNat_eq hmod⟩
  · rintro ⟨rfl, rfl⟩
    rfl

/-- The fields of a word are determined by it. -/
theorem encodeR_inj {funct7 funct7' : BitVec 7} {rs2 rs1 rs2' rs1' : Reg} {funct3 funct3' : BitVec 3}
    {rd rd' : Reg} {opcode opcode' : BitVec 7} :
    encodeR funct7 rs2 rs1 funct3 rd opcode = encodeR funct7' rs2' rs1' funct3' rd' opcode' ↔
      funct7 = funct7' ∧ rs2 = rs2' ∧ rs1 = rs1' ∧ funct3 = funct3' ∧ rd = rd' ∧
        opcode = opcode' := by
  simp only [← BitVec.toNat_inj, encodeR_toNat]
  omega

theorem encodeR_eq_encodeI (funct7 : BitVec 7) (rs2 rs1 : Reg) (funct3 : BitVec 3) (rd : Reg)
    (opcode : BitVec 7) :
    encodeR funct7 rs2 rs1 funct3 rd opcode = encodeI (funct7 ++ rs2) rs1 funct3 rd opcode := rfl

theorem encodeR_eq_encodeS (funct7 : BitVec 7) (rs2 rs1 : Reg) (funct3 : BitVec 3) (rd : Reg)
    (opcode : BitVec 7) :
    encodeR funct7 rs2 rs1 funct3 rd opcode = encodeS (funct7 ++ rd) rs2 rs1 funct3 opcode := by
  have h7 := funct7.isLt
  have hd := rd.isLt
  have hhigh : (funct7 ++ rd).extractLsb' 5 7 = funct7 := by
    apply BitVec.eq_of_toNat_eq
    rw [toNat_extractLsb'_eq, toNat_append_eq]
    omega
  have hlow : (funct7 ++ rd).extractLsb' 0 5 = rd := by
    apply BitVec.eq_of_toNat_eq
    rw [toNat_extractLsb'_eq, toNat_append_eq]
    omega
  rw [encodeS_eq, hhigh, hlow]

theorem exists_encodeB (funct7 : BitVec 7) (rs2 rs1 : Reg) (funct3 : BitVec 3) (rd : Reg)
    (opcode : BitVec 7) :
    ∃ imm, encodeR funct7 rs2 rs1 funct3 rd opcode = encodeB imm rs2 rs1 funct3 opcode := by
  obtain ⟨a, b, rfl⟩ := exists_append (m := 1) (n := 6) funct7
  obtain ⟨c, d, rfl⟩ := exists_append (m := 4) (n := 1) rd
  have ha := a.isLt
  have hb := b.isLt
  have hc := c.isLt
  have hd := d.isLt
  have himm : (a ++ d ++ b ++ c).toNat =
      a.toNat * 2 ^ 11 + d.toNat * 2 ^ 10 + b.toNat * 2 ^ 4 + c.toNat := by
    simp only [toNat_append_eq]
    ring
  refine ⟨a ++ d ++ b ++ c, ?_⟩
  rw [encodeB_eq, encodeR_inj]
  refine ⟨?_, rfl, rfl, rfl, ?_, rfl⟩
  all_goals
    apply BitVec.eq_of_toNat_eq
    rw [toNat_append_eq, toNat_append_eq, toNat_extractLsb'_eq, toNat_extractLsb'_eq, himm]
    omega

theorem exists_scrambleJ (x : BitVec 20) : ∃ imm, scrambleJ imm = x := by
  obtain ⟨y, b, rfl⟩ := exists_append (m := 12) (n := 8) x
  obtain ⟨z, c, rfl⟩ := exists_append (m := 11) (n := 1) y
  obtain ⟨a, d, rfl⟩ := exists_append (m := 1) (n := 10) z
  have ha := a.isLt
  have hb := b.isLt
  have hc := c.isLt
  have hd := d.isLt
  have himm : (a ++ b ++ c ++ d).toNat =
      a.toNat * 2 ^ 19 + b.toNat * 2 ^ 11 + c.toNat * 2 ^ 10 + d.toNat := by
    simp only [toNat_append_eq]
    ring
  refine ⟨a ++ b ++ c ++ d, ?_⟩
  apply BitVec.eq_of_toNat_eq
  rw [scrambleJ_toNat ha hb hc hd himm]
  simp only [toNat_append_eq]
  ring

theorem exists_encodeR (w : Word) :
    ∃ funct7 rs2 rs1 funct3 rd opcode, w = encodeR funct7 rs2 rs1 funct3 rd opcode := by
  refine ⟨w.extractLsb' 25 7, w.extractLsb' 20 5, w.extractLsb' 15 5, w.extractLsb' 12 3,
    w.extractLsb' 7 5, w.extractLsb' 0 7, ?_⟩
  apply BitVec.eq_of_toNat_eq
  simp only [encodeR, toNat_append_eq, toNat_extractLsb'_eq]
  omega

end Mlogv32.Isa
