import Mlogv32.Mod.Lemmas.Dump
import Mlogv32.Mod.Lemmas.Flash

/-!
# Dumping RAM

`dumpRam` empties the file before it checks the address, and stops at the end of RAM without an
error.
-/

namespace Mlogv32.Mod
open Mlog Logic Cpu

variable {cfg : Config} {procs : Procs} {isRamProc : Tile → Bool}

/-! ## Dumps -/

/-- An error leaves the file, and a success writes the bytes that the CPU loads. -/
def ExactOrNoEffect {α : Type} (cfg : Config) (procs : Procs) (startAddress : Int) (count : α → Int)
    (file : File) :
    EStateM.Result Exn File α → Prop
  | .error _ file' => file' = file
  | .ok r file' => ∃ out, file' = some out ∧ (out.length : Int) = count r ∧
      ∀ i byte, out[i]? = some byte → LbuReturns cfg procs (startAddress + (i : Nat)) byte

/-- A variable whose number is a word. -/
def WordCell (lvar : Value) : Prop := (toUInt (numval lvar) : Int) = lvar.toNum % 2 ^ 32

/-- The condition for a dump. -/
def DumpCondition (cfg : Config) (procs : Procs) (startAddress bytes : Int) (file : File) : Prop :=
  0 < bytes ∧ bytes ≤ cfg.ramSize ∧ bytes % 4 = 0 →
    if (ramStart ≤ startAddress ∧ startAddress < cfg.ramEnd) ∧ startAddress % 4 = 0 then
      startAddress + bytes ≤ cfg.ramEnd ∧
        ∀ k : Nat, 4 * (k : Int) < bytes → WordCell (cell cfg procs (startAddress - ramStart + 4 * k))
    else file = some []

/-! ## Words -/

theorem toUInt_lt (x : Int) : toUInt x < 2 ^ 32 := by
  unfold toUInt
  omega

theorem eq_of_bytes {w v : Nat} (hw : w < 2 ^ 32) (hv : v < 2 ^ 32)
    (h : ∀ j < 4, w / 256 ^ j % 256 = v / 256 ^ j % 256) : w = v := by
  have hsucc (x j : Nat) : x / 256 ^ (j + 1) = x / 256 ^ j / 256 := by
    rw [pow_succ, Nat.div_div_eq_div_mul]
  have h0 := h 0 (by decide)
  have h1 := h 1 (by decide)
  have h2 := h 2 (by decide)
  have h3 := h 3 (by decide)
  simp only [hsucc, pow_zero, Nat.div_one] at h0 h1 h2 h3
  omega

/-- A word is written as its bytes exactly when its variable holds it. -/
theorem wordBytes_lbu_iff {offset : Int} (h0 : 0 ≤ offset) (hlt : offset < cfg.ramSize)
    (h4 : offset % 4 = 0) :
    (∀ j < 4, ∀ byte, (wordBytes (toUInt (numval (cell cfg procs offset))))[j]? = some byte →
      LbuReturns cfg procs (ramStart + (offset + (j : Nat))) byte) ↔
      WordCell (cell cfg procs offset) := by
  have hsize := cfg.ramSize_aligned
  have hstart : ramStart = 0x80000000 := rfl
  have hram : InRam cfg (ramStart + offset) := ⟨by omega, by unfold PageConfig.ramEnd; omega⟩
  have hw := toUInt_lt (numval (cell cfg procs offset))
  unfold WordCell
  generalize toUInt (numval (cell cfg procs offset)) = w at hw ⊢
  have hv := Int.emod_lt_of_pos (cell cfg procs offset).toNum (show (0 : Int) < 2 ^ 32 by decide)
  have hv0 := Int.emod_nonneg (cell cfg procs offset).toNum (show (2 ^ 32 : Int) ≠ 0 by decide)
  have hbyte (j : Nat) (hj : j < 4) : (∀ byte, (wordBytes w)[j]? = some byte →
      LbuReturns cfg procs (ramStart + (offset + j)) byte) ↔
      w / 256 ^ (3 - j) % 256 = ((cell cfg procs offset).toNum % 2 ^ 32).toNat /
        256 ^ (3 - j) % 256 := by
    have hlength : j < (wordBytes w).length := hj
    have hget : (wordBytes w)[j]? = some (wordBytes w)[j] := List.getElem?_eq_getElem hlength
    have hin : InRam cfg (ramStart + (offset + j)) := ⟨by omega, by unfold PageConfig.ramEnd; omega⟩
    have hmod : (ramStart + (offset + j)) % 4 = j := by omega
    have hload := ramBytes_eq cfg procs hram (b := ramStart + (offset + j)) (by omega)
    rw [hmod, loadRamWordUnchecked_eq, add_sub_cancel_left] at hload
    rw [hget]
    simp only [Option.some.injEq, forall_eq']
    rw [lbuReturns_iff hin, hload, Memory.byte, BitVec.toNat_ofNat, wordBytes_getElem w hlength,
      Int.toNat_natCast, ← swapEndianness_byte _ hj]
  constructor
  · intro h
    have heq := eq_of_bytes (w := w) (v := ((cell cfg procs offset).toNum % 2 ^ 32).toNat) hw
        (by omega) fun j hj => by
      have hdigit := (hbyte (3 - j) (by omega)).mp (h (3 - j) (by omega))
      rw [show 3 - (3 - j) = j by omega] at hdigit
      exact hdigit
    rw [heq, Int.toNat_of_nonneg hv0]
  · intro h j hj
    refine (hbyte j hj).mpr ?_
    rw [← h, Int.toNat_natCast]

/-! ## Results -/

theorem dumpRam_rejected {startAddress bytes : Int} {file : File}
    (h : ¬(0 < bytes ∧ bytes ≤ cfg.ramSize ∧ bytes % 4 = 0)) :
    ∃ e, dumpRam cfg procs isRamProc startAddress bytes file = .error e file := by
  by_cases hpos : 0 < bytes
  · by_cases hsize : bytes ≤ cfg.ramSize
    · have halign : ¬bytes % 4 = 0 := fun halign => h ⟨hpos, hsize, halign⟩
      exact ⟨_, by
        rw [dumpRam, bind_ok (require_pos hpos), bind_ok (require_pos hsize),
          bind_error (require_neg halign)]⟩
    · exact ⟨_, by rw [dumpRam, bind_ok (require_pos hpos), bind_error (require_neg hsize)]⟩
  · exact ⟨_, by rw [dumpRam, bind_error (require_neg hpos)]⟩

theorem dumpRam_truncated {startAddress bytes : Int} {file : File}
    (h : 0 < bytes ∧ bytes ≤ cfg.ramSize ∧ bytes % 4 = 0)
    (hstart : ¬((ramStart ≤ startAddress ∧ startAddress < cfg.ramEnd) ∧ startAddress % 4 = 0)) :
    ∃ e, dumpRam cfg procs isRamProc startAddress bytes file = .error e (some []) := by
  have hset : (set (some [] : File) : EStateM Exn File Unit) file = .ok () (some []) := rfl
  have hwords : ∃ e, ramWordsSequence cfg procs isRamProc startAddress (some []) =
      .error e (some []) := by
    by_cases hram : ramStart ≤ startAddress ∧ startAddress < cfg.ramEnd
    · have halign : ¬startAddress % 4 = 0 := fun halign => hstart ⟨hram, halign⟩
      exact ⟨_, by rw [ramWordsSequence, bind_ok (require_pos hram), bind_error (require_neg halign)]⟩
    · exact ⟨_, by rw [ramWordsSequence, bind_error (require_neg hram)]⟩
  obtain ⟨e, hwords⟩ := hwords
  refine ⟨e, ?_⟩
  rw [dumpRam, bind_ok (require_pos h.1), bind_ok (require_pos h.2.1), bind_ok (require_pos h.2.2),
    bind_ok hset, bind_error hwords]

/-- The number of words in a dump from an offset in RAM. -/
def dumpCount (cfg : Config) (offset bytes : Int) : Nat :=
  min (bytes / 4).toNat ((ramTop cfg - offset) / 4).toNat

/-- The bytes of a dump from an offset in RAM. -/
def dumpBytes (cfg : Config) (procs : Procs) (offset bytes : Int) : List (Fin 256) :=
  (List.range (dumpCount cfg offset bytes)).flatMap fun k : Nat =>
    wordBytes (toUInt (numval (cell cfg procs (offset + 4 * k))))

theorem dumpRam_ok (hpresent : RamPresent cfg isRamProc) {startAddress bytes : Int} {file : File}
    (h : 0 < bytes ∧ bytes ≤ cfg.ramSize ∧ bytes % 4 = 0)
    (hstart : (ramStart ≤ startAddress ∧ startAddress < cfg.ramEnd) ∧ startAddress % 4 = 0) :
    dumpRam cfg procs isRamProc startAddress bytes file =
      .ok () (some (dumpBytes cfg procs (startAddress - ramStart) bytes)) := by
  have hset : (set (some [] : File) : EStateM Exn File Unit) file = .ok () (some []) := rfl
  obtain ⟨offset, hoffset⟩ : ∃ offset, startAddress = ramStart + offset :=
    ⟨startAddress - ramStart, by ring⟩
  have hramStart : ramStart = 0x80000000 := rfl
  have hsize := cfg.ramSize_aligned
  have hramEnd : cfg.ramEnd = ramStart + cfg.ramSize := rfl
  have hramTop : ramTop cfg = (cfg.ramSize + 16383) / 16384 * 16384 := rfl
  have hsequence := @ramWords_eq cfg procs isRamProc hpresent (cfg.ramSize + 1) offset
    (by omega) (by omega) (by omega)
    (Or.inl (by omega))
  have hwords : ramWordsSequence cfg procs isRamProc startAddress (some []) =
      .ok ((List.range ((ramTop cfg - offset) / 4).toNat).map fun k : Nat =>
        cell cfg procs (offset + 4 * k)) (some []) := by
    rw [ramWordsSequence, bind_ok (require_pos hstart.1), bind_ok (require_pos hstart.2),
      hoffset, hsequence]
    rfl
  rw [dumpRam, bind_ok (require_pos h.1), bind_ok (require_pos h.2.1), bind_ok (require_pos h.2.2),
    bind_ok hset, bind_ok hwords, forM_writeWord, ← List.map_take, List.take_range,
    List.flatMap_map, hoffset, add_sub_cancel_left]
  rfl

/-! ## Exactness -/

theorem dumpBytes_length (cfg : Config) (procs : Procs) (offset bytes : Int) :
    (dumpBytes cfg procs offset bytes).length = 4 * dumpCount cfg offset bytes := by
  rw [dumpBytes, flatMap_length fun _ => wordBytes_length _, List.length_range]

theorem dumpBytes_getElem? {offset bytes : Int} {k j : Nat} (hk : k < dumpCount cfg offset bytes)
    (hj : j < 4) :
    (dumpBytes cfg procs offset bytes)[4 * k + j]? =
      (wordBytes (toUInt (numval (cell cfg procs (offset + 4 * k)))))[j]? := by
  rw [dumpBytes, flatMap_getElem? (fun _ => wordBytes_length _) _ hj, List.getElem?_range hk]
  rfl

/-- The dump from an offset is exact if it stays in RAM. -/
theorem dumpBytes_exact_iff {offset bytes : Int} (h0 : 0 ≤ offset) (hlt : offset < cfg.ramSize)
    (h4 : offset % 4 = 0) (hpos : 0 < bytes) (hbytes : bytes % 4 = 0) :
    (((dumpBytes cfg procs offset bytes).length : Int) = bytes ∧ ∀ i byte,
      (dumpBytes cfg procs offset bytes)[i]? = some byte →
        LbuReturns cfg procs (ramStart + (offset + (i : Nat))) byte) ↔
      offset + bytes ≤ cfg.ramSize ∧ ∀ k : Nat, 4 * (k : Int) < bytes →
      WordCell (cell cfg procs (offset + 4 * k)) := by
  have hlength := dumpBytes_length cfg procs offset bytes
  have hramTop : ramTop cfg = (cfg.ramSize + 16383) / 16384 * 16384 := rfl
  have hcount : dumpCount cfg offset bytes =
    min (bytes / 4).toNat ((ramTop cfg - offset) / 4).toNat := rfl
  have hsize := cfg.ramSize_le
  have hword {k : Nat} (hk : k < dumpCount cfg offset bytes) (hin : offset + 4 * k < cfg.ramSize) :=
    @wordBytes_lbu_iff cfg procs (offset + 4 * k) (by omega) hin (by omega)
  constructor
  · rintro ⟨hlen, hload⟩
    have hend : offset + bytes ≤ cfg.ramSize := by
      by_contra hlong
      -- the first byte behind RAM
      obtain ⟨i, hi⟩ := Int.eq_ofNat_of_zero_le (show 0 ≤ cfg.ramSize - offset by omega)
      have hget : i < (dumpBytes cfg procs offset bytes).length := by omega
      have haddr : ramStart + (offset + i) = cfg.ramEnd := by
        unfold PageConfig.ramEnd
        omega
      have hmmio : cfg.ramEnd < mmioStart := by
        unfold PageConfig.ramEnd ramStart mmioStart
        omega
      have hbyte := hload i _ (List.getElem?_eq_getElem hget)
      rw [haddr] at hbyte
      exact not_lbuReturns le_rfl hmmio hbyte
    refine ⟨hend, fun k hk => ?_⟩
    have hkcount : k < dumpCount cfg offset bytes := by omega
    refine (hword hkcount (by omega)).mp fun j hj byte hbyte => ?_
    have h := hload (4 * k + j) byte (by rw [dumpBytes_getElem? hkcount hj, hbyte])
    rw [show offset + ((4 * k + j : Nat) : Int) = offset + 4 * k + j by omega] at h
    exact h
  · rintro ⟨hend, hcells⟩
    refine ⟨by omega, fun i byte hbyte => ?_⟩
    obtain ⟨hi, -⟩ := List.getElem?_eq_some_iff.mp hbyte
    have hk : i / 4 < dumpCount cfg offset bytes := by omega
    have hj : i % 4 < 4 := Nat.mod_lt _ (by decide)
    have hindex : i = 4 * (i / 4) + i % 4 := by omega
    rw [hindex, dumpBytes_getElem? hk hj] at hbyte
    have h := (hword hk (by omega)).mpr (hcells (i / 4) (by omega)) (i % 4) hj byte hbyte
    rw [show offset + 4 * ((i / 4 : Nat) : Int) + (i % 4 : Nat) = offset + i by omega] at h
    exact h

theorem exactOrNoEffect_ok {α : Type} {startAddress : Int} {count : α → Int} {file : File}
    {out : List (Fin 256)} {r : α} :
    ExactOrNoEffect cfg procs startAddress count file (.ok r (some out)) ↔
      ((out.length : Int) = count r ∧ ∀ i byte, out[i]? = some byte →
        LbuReturns cfg procs (startAddress + (i : Nat)) byte) := by
  constructor
  · rintro ⟨out', hout, h⟩
    obtain rfl := Option.some.inj hout
    exact h
  · exact fun h => ⟨out, rfl, h⟩

/-- A dump with any result that reports the number of bytes. -/
theorem dumpRam_exact_iff {α : Type} (hpresent : RamPresent cfg isRamProc)
    (startAddress bytes : Int) (file : File) (count : α → Int) (r : α) (hr : count r = bytes) :
    ExactOrNoEffect cfg procs startAddress count file
        ((dumpRam cfg procs isRamProc startAddress bytes >>= fun _ => pure r) file) ↔
      DumpCondition cfg procs startAddress bytes file := by
  unfold DumpCondition
  by_cases h : 0 < bytes ∧ bytes ≤ cfg.ramSize ∧ bytes % 4 = 0
  · by_cases hstart : (ramStart ≤ startAddress ∧ startAddress < cfg.ramEnd) ∧ startAddress % 4 = 0
    · have hramStart : ramStart = 0x80000000 := rfl
      have hramEnd : cfg.ramEnd = ramStart + cfg.ramSize := rfl
      have hexact := @dumpBytes_exact_iff cfg procs (startAddress - ramStart) bytes (by omega)
        (by omega) (by omega) h.1
        h.2.2
      have haddr (i : Nat) : ramStart + (startAddress - ramStart + i) = startAddress + i := by ring
      have hend : startAddress - ramStart + bytes ≤ cfg.ramSize ↔
        startAddress + bytes ≤ cfg.ramEnd := by omega
      simp only [haddr, hend] at hexact
      rw [bind_ok (dumpRam_ok hpresent h hstart), if_pos hstart]
      refine exactOrNoEffect_ok.trans ?_
      rw [hr, hexact]
      exact ⟨fun hdump _ => hdump, fun hdump => hdump h⟩
    · obtain ⟨e, hdump⟩ := @dumpRam_truncated cfg procs isRamProc _ _ file h hstart
      rw [bind_error hdump, if_neg hstart]
      exact ⟨fun hfile _ => hfile.symm, fun hfile => (hfile h).symm⟩
  · obtain ⟨e, hdump⟩ := @dumpRam_rejected cfg procs isRamProc startAddress _ file h
    rw [bind_error hdump]
    exact ⟨fun _ h' => absurd h' h, fun _ => rfl⟩

/-- Dumps and dump requests are exact or have no effect exactly under the condition. -/
theorem dump_exact_iff (cfg : Config) (procs : Procs) (isRamProc : Tile → Bool)
    (hpresent : RamPresent cfg isRamProc) :
    (∀ (startAddress bytes : Int) (file : File),
      ExactOrNoEffect cfg procs startAddress (fun _ => bytes) file
          (dumpRam cfg procs isRamProc startAddress bytes file) ↔
        DumpCondition cfg procs startAddress bytes file) ∧
    ∀ (r : DumpRequest) (file : File),
      ExactOrNoEffect cfg procs r.startAddress.toNat id file (r.handle cfg procs isRamProc file) ↔
        DumpCondition cfg procs r.startAddress.toNat (r.count cfg) file := by
  refine ⟨fun startAddress bytes file => ?_, fun r file => ?_⟩
  · have h := @dumpRam_exact_iff cfg procs _ _ hpresent startAddress bytes file (fun _ => bytes) () rfl
    rw [bind_pure_unit] at h
    exact h
  · exact dumpRam_exact_iff hpresent _ _ file id _ rfl

/-- RAM with the number 1 in every variable. -/
def onesProcs : Procs := fun _ _ => .num 1

theorem onesProcs_cell (k : Nat) :
    cell (smallBuild fun _ _ => none) onesProcs (4 * (k : Int)) = .num 1 := by
  rw [cell, accessRamRaw_eq _ (by omega)]
  rfl

theorem dump_exact_iff_small :
    ExactOrNoEffect (smallBuild fun _ _ => none) onesProcs 0x80000000 (fun _ => (8 : Int)) none
      (dumpRam (smallBuild fun _ _ => none) onesProcs (fun _ => true) 0x80000000 8 none) := by
  refine ((dump_exact_iff (smallBuild fun _ _ => none) onesProcs (fun _ => true)
    fun _ _ _ => rfl).1 _ _ _).mpr fun _ => ?_
  rw [if_pos (by decide)]
  refine ⟨by decide, fun k _ => ?_⟩
  have hoffset : (0x80000000 : Int) - ramStart + 4 * k = 4 * k := by
    unfold ramStart
    omega
  rw [hoffset, onesProcs_cell, WordCell]
  decide

/-- A dump over the end of RAM is short, and a dump outside RAM empties the file. -/
theorem dumpRam_not_exact :
    ¬ExactOrNoEffect (smallBuild fun _ _ => none) onesProcs 0x8007fffc (fun _ => (8 : Int)) none
      (dumpRam (smallBuild fun _ _ => none) onesProcs (fun _ => true) 0x8007fffc 8 none) ∧
    ¬ExactOrNoEffect (smallBuild fun _ _ => none) onesProcs 0 (fun _ => (4 : Int)) (some [1])
      (dumpRam (smallBuild fun _ _ => none) onesProcs (fun _ => true) 0 4 (some [1])) := by
  have hpresent : RamPresent (smallBuild fun _ _ => none) fun _ => true := fun _ _ _ => rfl
  constructor
  · intro h
    rw [← bind_pure_unit (x := dumpRam _ _ _ _ _)] at h
    have hshort := (dumpRam_exact_iff hpresent _ _ _ (fun _ => (8 : Int)) () rfl).mp h (by decide)
    rw [if_pos (by decide)] at hshort
    exact absurd hshort.1 (by decide)
  · intro h
    rw [← bind_pure_unit (x := dumpRam _ _ _ _ _)] at h
    have hempty := (dumpRam_exact_iff hpresent _ _ _ (fun _ => (4 : Int)) () rfl).mp h (by decide)
    rw [if_neg (by decide)] at hempty
    cases hempty

end Mlogv32.Mod
