import Mlogv32.Cpu.Lemmas.Mode
import Mlogv32.Cpu.Lemmas.Privilege
import Mlogv32.Isa.Csr

/-!
# The CSRs of a hart

`csrTable` is the list of `cpu.yaml`, and `csrState` the values that the worker holds in variables
of its own and in CSRS.
-/

namespace Mlogv32.Cpu
open Mlog Logic Isa

variable {cfg : PageConfig} {s : Hart}

/-! ## The table -/

/-- The CSRs that are listed, and the ones whose read handler gives zero. -/
def csrTable : Csr.Table where
  listed n := csrEntries.any (·.number == n)
  zero n := (csrEntry n).read == .zero || (csrEntry n).read == .hpmcounter
  mask n := (csrEntry n).mask

/-! ## The state -/

/-- The CSRs in variables of the worker. The two flags of mip are not visible. -/
def hartCsrs (s : Hart) : List (Nat × Int) :=
  [(Csr.mstatus, s.csrMstatus), (Csr.mie, s.csrMie),
    (Csr.mip, opAnd s.csrMip 0b00111111111111111111111111111111),
   (Csr.mcycle, s.csrMcycle), (Csr.minstret, s.csrMinstret), (timeCsr, s.csrMtime), (0xc81, s.csrMtimeh),
   (Csr.stimecmp, s.csrStimecmp), (Csr.stimecmph, s.csrStimecmph)]

def csrState (cfg : PageConfig) (s : Hart) : Csr.State :=
  fun n => ((hartCsrs s).lookup n).getD (s.csr cfg n)

/-- The numbers of `hartCsrs`. -/
def hartCsrNumbers : List Nat :=
  [Csr.mstatus, Csr.mie, Csr.mip, Csr.mcycle, Csr.minstret, timeCsr, 0xc81, Csr.stimecmp, Csr.stimecmph]

theorem csrState_cell {n : Nat} (h : n ∉ hartCsrNumbers) : csrState cfg s n = s.csr cfg n := by
  have hlookup : (hartCsrs s).lookup n = none := by
    rw [List.lookup_eq_none_iff]
    rintro ⟨k, v⟩ hk
    have hmem : k ∈ hartCsrNumbers := List.mem_map_of_mem (f := Prod.fst) hk
    simpa using fun heq : n = k => h (heq ▸ hmem)
  rw [csrState, hlookup]
  rfl

/-- CSR_LABELS is as the controller has written it, and the CSRs hold values that they can hold. -/
structure CsrStateOk (cfg : PageConfig) (s : Hart) : Prop where
  csrLabels : CsrLabelsOk cfg s
  mode : ModeOk s
  mstatus : Within 0xffffffff s.csrMstatus
  mideleg : Within 0b00111111111111111111111111111111 (s.csr cfg midelegCsr)
  minstret : s.csrMinstret < 2 ^ 32

theorem csrState_congr {s' : Hart} (hcells : ∀ n, s'.csr cfg n = s.csr cfg n)
    (hhart : hartCsrs s' = hartCsrs s) :
    csrState cfg s' = csrState cfg s := by
  funext n
  rw [csrState, csrState, hcells, hhart]

theorem csrState_update {s' : Hart} {k : Nat} {v : Int} (hcells : ∀ n, s'.csr cfg n = s.csr cfg n)
    (hother : ∀ n ≠ k, (hartCsrs s').lookup n = (hartCsrs s).lookup n) (hk : csrState cfg s' k = v) :
    csrState cfg s' = Function.update (csrState cfg s) k v := by
  funext n
  by_cases hn : n = k
  · subst hn
    rw [Function.update_self, hk]
  · rw [Function.update_of_ne hn, csrState, csrState, hcells, hother n hn]

theorem csrState_csrMstatus (x : Int) :
    csrState cfg { s with csrMstatus := x } = Function.update (csrState cfg s) Csr.mstatus x := by
  refine csrState_update (fun _ => rfl) (fun n hn => ?_) rfl
  simp [hartCsrs, List.lookup, beq_false_of_ne hn]

theorem csrState_csrMie (x : Int) :
    csrState cfg { s with csrMie := x } = Function.update (csrState cfg s) Csr.mie x := by
  refine csrState_update (fun _ => rfl) (fun n hn => ?_) rfl
  simp [hartCsrs, List.lookup, beq_false_of_ne hn]

theorem csrState_csrMip (x : Int) : csrState cfg { s with csrMip := x } =
    Function.update (csrState cfg s) Csr.mip (opAnd x 0b00111111111111111111111111111111) := by
  refine csrState_update (fun _ => rfl) (fun n hn => ?_) rfl
  simp [hartCsrs, List.lookup, beq_false_of_ne hn]

theorem csrState_csrMcycle (x : Int) :
    csrState cfg { s with csrMcycle := x } = Function.update (csrState cfg s) Csr.mcycle x := by
  refine csrState_update (fun _ => rfl) (fun n hn => ?_) rfl
  simp [hartCsrs, List.lookup, beq_false_of_ne hn]

theorem csrState_csrMinstret (x : Int) :
    csrState cfg { s with csrMinstret := x } = Function.update (csrState cfg s) Csr.minstret x := by
  refine csrState_update (fun _ => rfl) (fun n hn => ?_) rfl
  simp [hartCsrs, List.lookup, beq_false_of_ne hn]

theorem csrState_csrStimecmp (x : Int) :
    csrState cfg { s with csrStimecmp := x } = Function.update (csrState cfg s) Csr.stimecmp x := by
  refine csrState_update (fun _ => rfl) (fun n hn => ?_) rfl
  simp [hartCsrs, List.lookup, beq_false_of_ne hn]

theorem csrState_csrStimecmph (x : Int) :
    csrState cfg { s with csrStimecmph := x } = Function.update (csrState cfg s) Csr.stimecmph x := by
  refine csrState_update (fun _ => rfl) (fun n hn => ?_) rfl
  simp [hartCsrs, List.lookup, beq_false_of_ne hn]

theorem csrState_writeCsr {k : Nat} (hk : k ∉ hartCsrNumbers) (x : Int) :
    csrState cfg (s.writeCsr cfg (.var k) x) = Function.update (csrState cfg s) k x := by
  funext n
  by_cases hn : n = k
  · subst hn
    rw [Function.update_self, csrState_cell hk, writeCsr_csr_self]
  · rw [Function.update_of_ne hn, csrState, csrState, writeCsr_csr s hn]
    rfl

/-! ## Entries -/

theorem csrEntry_mem {n : Nat} (h : csrTable.listed n = true) : csrEntry n ∈ csrEntries := by
  have hfold (es : List CsrEntry) (r : CsrEntry) (hr : r ∈ csrEntries ∨ ∃ e ∈ es, n = e.number)
      (hes : ∀ e ∈ es, e ∈ csrEntries) : es.foldl (selectEntry n) r ∈ csrEntries := by
    induction es generalizing r with
    | nil => exact hr.resolve_right fun ⟨e, he, _⟩ => absurd he List.not_mem_nil
    | cons e es ih =>
        refine ih _ ?_ fun e' he' => hes e' (List.mem_cons_of_mem _ he')
        unfold selectEntry
        split
        · exact Or.inl (hes e List.mem_cons_self)
        · rename_i hne
          rcases hr with hr | ⟨e', he', hn⟩
          · exact Or.inl hr
          · rcases List.mem_cons.mp he' with rfl | he'
            · exact absurd hn hne
            · exact Or.inr ⟨e', he', hn⟩
  obtain ⟨e, he, hn⟩ := List.any_eq_true.mp h
  exact hfold csrEntries _ (Or.inr ⟨e, he, (beq_iff_eq.mp hn).symm⟩) fun _ he' => he'

theorem csrEntry_not_listed {n : Nat} (h : csrTable.listed n = false) :
    (csrEntry n).read = .ILLEGAL_OP := by
  refine csrEntry_of_forall (p := fun e => e.read = .ILLEGAL_OP) (fun e he hn => ?_) rfl
  have hlisted : csrTable.listed n = true := List.any_eq_true.mpr ⟨e, he, beq_iff_eq.mpr hn.symm⟩
  exact absurd (h.symm.trans hlisted) (by decide)

/-- The CSRs of a read handler that knows them. -/
def readNumbers : CsrRead → List Nat
  | .mstatus => [Csr.sstatus, Csr.mstatus]
  | .sip => [Csr.sip]
  | .mip => [Csr.mip]
  | .sie => [Csr.sie]
  | .mie => [Csr.mie]
  | .satp => [Csr.satp]
  | .stimecmp => [Csr.stimecmp, Csr.stimecmph]
  | .mcycle => [Csr.cycle, Csr.mcycle]
  | .cycleh => [Csr.cycleh]
  | .minstret => [Csr.instret, Csr.minstret]
  | .minstreth => [Csr.instreth, Csr.minstreth]
  | .time => [timeCsr, 0xc81]
  | .ILLEGAL_OP | .csrs | .zero | .hpmcounter => []

theorem csrEntries_read : ∀ e ∈ csrEntries,
    (e.read ∈ [.csrs, .zero, .hpmcounter] ∨ e.number ∈ readNumbers e.read) ∧
    (e.read = .csrs → Csr.source e.number = e.number ∧ e.number ∉ hartCsrNumbers ∧
      e.number ∉ [Csr.sstatus, Csr.sie, Csr.sip]) ∧
    (e.read ∈ [.csrs, .zero] → Csr.counterBit e.number = none ∧ e.number ≠ Csr.satp) ∧
    (e.read = .hpmcounter → Csr.counterBit e.number = some (e.number % 32)) := by decide +kernel

/-! ## Reads -/

theorem checkXcounteren_eq {a : Int} {k : Nat} (ha : opAnd a 31 = k) (hk : k < 32) :
    checkXcounteren cfg s a = Csr.counterEnabled s.privilegeMode (csrState cfg s) k := by
  have hmcounteren : csrState cfg s Csr.mcounteren = s.csr cfg mcounterenCsr := csrState_cell (by decide)
  have hscounteren : csrState cfg s Csr.scounteren = s.csr cfg scounterenCsr := csrState_cell (by decide)
  have hbit (x : Int) : (opAnd (opShr x k) 0b1 ≠ 0) = (bit x k = true) := by
    rw [opAnd_opShr_one x (by omega)]
    cases bit x k <;> simp
  rw [checkXcounteren, Csr.counterEnabled, hmcounteren, hscounteren, ha]
  by_cases h3 : s.privilegeMode = 3
  · simp [h3]
  · by_cases h1 : s.privilegeMode = 1
    · simp only [h1, if_true, hbit]
      simp
    · simp only [h3, h1, if_false, hbit, bit_opAnd]
      simp

theorem readCounter_eq {a rd : Int} {k : Nat} (ha : opAnd a 31 = k) (hk : k < 32) :
    readCounter cfg a rd s =
      if Csr.counterEnabled s.privilegeMode (csrState cfg s) k then .ok rd s
      else .error illegalOp s := by
  rw [readCounter, bind_get, checkXcounteren_eq ha hk]
  split <;> rfl

theorem opAnd_natCast_31 (n : Nat) : opAnd n 31 = ((n % 32 : Nat) : Int) := by
  have h := opAnd_mask (n : Int) 0 5 (b := 31) (by decide) (by decide)
  rw [h]
  omega

theorem readCounter_denied {n k : Nat} {a : Int} (hbit : Csr.counterBit n = some k)
    (ha : opAnd a 31 = k) (hk : k < 32) (hne : n ≠ Csr.satp) (rd : Int) :
    readCounter cfg a rd s =
      if Csr.counterDenied s.privilegeMode (csrState cfg s) n ||
        Csr.satpDenied s.privilegeMode (csrState cfg s) n then
        .error illegalOp s
      else .ok rd s := by
  have hsatp : Csr.satpDenied s.privilegeMode (csrState cfg s) n = false := by
    simp [Csr.satpDenied, hne]
  rw [readCounter_eq ha hk, Csr.counterDenied, hbit, hsatp, Bool.or_false]
  cases henabled : Csr.counterEnabled s.privilegeMode (csrState cfg s) k with
  | false => simp [henabled]
  | true => simp [henabled]

theorem readCounter_machine (h : s.privilegeMode = 3) (a rd : Int) :
    readCounter cfg a rd s = .ok rd s := by
  rw [readCounter, bind_get, checkXcounteren, if_pos h]
  rfl

theorem access_free {n : Nat} (hbit : Csr.counterBit n = none) (hne : n ≠ Csr.satp) (mode : Int)
    (c : Csr.State) :
    (Csr.counterDenied mode c n || Csr.satpDenied mode c n) = false := by
  simp [Csr.counterDenied, hbit, Csr.satpDenied, hne]

/-- mip shows the delegated bits without the flags. -/
theorem opAnd_mip {mideleg : Int} (h : Within 0b00111111111111111111111111111111 mideleg) (mip : Int) :
    opAnd (opAnd mip 0b00111111111111111111111111111111) mideleg = opAnd mip mideleg := by
  rw [opAnd_assoc, opAnd_comm _ mideleg, h]

theorem csrRead_satp_eq : csrRead cfg Csr.satp (.var Csr.satp) .satp s =
    if Csr.satpDenied s.privilegeMode (csrState cfg s) Csr.satp then .error illegalOp s
    else .ok (s.csr cfg Csr.satp) s := by
  have htvm := opAnd_two_pow_eq_zero (a := s.csrMstatus) (k := 20) (by decide)
  have hdenied : Csr.satpDenied s.privilegeMode (csrState cfg s) Csr.satp =
      (decide (s.privilegeMode = 1) && bit s.csrMstatus 20) := by
    rw [Csr.satpDenied, decide_eq_true rfl, Bool.true_and]
    rfl
  rw [csrRead, bind_get, hdenied]
  by_cases hdeny : s.privilegeMode = 1 ∧ bit s.csrMstatus 20 = true
  · have hset : opAnd s.csrMstatus 0b100000000000000000000 ≠ 0 := by
      intro hzero
      exact absurd (hdeny.2.symm.trans (htvm.mp hzero)) (by decide)
    rw [if_pos ⟨hdeny.1, hset⟩, if_pos (by simp [hdeny])]
    rfl
  · have hclear : ¬(s.privilegeMode = 0b01 ∧ opAnd s.csrMstatus 0b100000000000000000000 ≠ 0) := by
      rintro ⟨hmode, hset⟩
      refine hdeny ⟨hmode, ?_⟩
      by_contra hbit
      exact hset (htvm.mpr (by simpa using hbit))
    rw [if_neg hclear, if_neg (by simpa using hdeny)]
    rfl

/-- A read handler gives the value of a CSR, or raises an exception. -/
def CsrReads (cfg : PageConfig) (s : Hart) (n : Nat) (read : CsrRead) : Prop :=
  csrRead cfg n (.var n) read s =
    if Csr.counterDenied s.privilegeMode (csrState cfg s) n ||
      Csr.satpDenied s.privilegeMode (csrState cfg s) n then
      .error illegalOp s
    else .ok (Csr.read csrTable (csrState cfg s) n) s

/-- The views of mstatus, mip and mie. -/
theorem csrRead_view {n : Nat} {read : CsrRead} (hmem : n ∈ readNumbers read)
    (hzero : csrTable.zero n = false) (hs : CsrStateOk cfg s)
    (h : read ∈ [.mstatus, .sip, .mip, .sie, .mie]) : CsrReads cfg s n read := by
  unfold CsrReads
  cases read with
  | mstatus =>
      rcases List.mem_pair.mp hmem with rfl | rfl
      · have hmask : csrTable.mask Csr.sstatus = 0b00000000000011000000000100100010 := by decide
        rw [access_free (by decide) (by decide), Csr.read, hzero, hmask]
        rfl
      · rw [access_free (by decide) (by decide), Csr.read, hzero]
        change EStateM.Result.ok (opAnd s.csrMstatus 0xffffffff) s = .ok s.csrMstatus s
        rw [hs.mstatus]
  | sip =>
      obtain rfl := List.mem_singleton.mp hmem
      rw [access_free (by decide) (by decide), Csr.read, hzero]
      change EStateM.Result.ok (opAnd s.csrMip (s.csr cfg midelegCsr)) s =
        .ok (opAnd (opAnd s.csrMip 0b00111111111111111111111111111111) (s.csr cfg midelegCsr)) s
      rw [opAnd_mip hs.mideleg]
  | mip | sie | mie =>
      obtain rfl := List.mem_singleton.mp hmem
      rw [access_free (by decide) (by decide), Csr.read, hzero]
      rfl
  | _ => simp at h

/-- A CSR that is not a view of another reads as its source. -/
theorem csrRead_source {n : Nat} (hzero : csrTable.zero n = false)
    (hview : n ∉ [Csr.sstatus, Csr.sie, Csr.sip]) (c : Csr.State) :
    Csr.read csrTable c n = c (Csr.source n) := by
  simp only [List.mem_cons, List.not_mem_nil, or_false, not_or] at hview
  obtain ⟨hsstatus, hsie, hsip⟩ := hview
  simp [Csr.read, hzero, hsstatus, hsie, hsip]

theorem csrReads_counter {n k : Nat} {read : CsrRead} {a : Int}
    (hread : csrRead cfg n (.var n) read s = readCounter cfg a (csrState cfg s (Csr.source n)) s)
    (hbit : Csr.counterBit n = some k) (ha : opAnd a 31 = k) (hk : k < 32) (hne : n ≠ Csr.satp)
    (hzero : csrTable.zero n = false) (hview : n ∉ [Csr.sstatus, Csr.sie, Csr.sip]) :
    CsrReads cfg s n read := by
  rw [CsrReads, hread, readCounter_denied hbit ha hk hne, csrRead_source hzero hview]

theorem csrReads_machineCounter {n : Nat} {read : CsrRead} {a : Int}
    (hread : csrRead cfg n (.var n) read s = readCounter cfg a (csrState cfg s (Csr.source n)) s)
    (hmachine : s.privilegeMode = 3) (hbit : Csr.counterBit n = none) (hne : n ≠ Csr.satp)
    (hzero : csrTable.zero n = false) (hview : n ∉ [Csr.sstatus, Csr.sie, Csr.sip]) :
    CsrReads cfg s n read := by
  rw [CsrReads, hread, readCounter_machine hmachine, access_free hbit hne, csrRead_source hzero hview]
  rfl

/-- The counters. Those of M-mode are read without a check, and the others if the counter is
enabled. -/
theorem csrRead_counter {n : Nat} {read : CsrRead} (hmem : n ∈ readNumbers read)
    (hzero : csrTable.zero n = false) (hmachine : n / 256 % 4 = 3 → s.privilegeMode = 3)
    (h : read ∈ [.stimecmp, .mcycle, .cycleh, .minstret, .minstreth, .time]) :
    CsrReads cfg s n read := by
  cases read with
  | stimecmp | time =>
      rcases List.mem_pair.mp hmem with rfl | rfl
      · exact csrReads_counter (k := 1) (by rw [csrRead, bind_get]; rfl) rfl (by decide) (by decide)
          (by decide) hzero (by decide)
      · exact csrReads_counter (k := 1) (by rw [csrRead, bind_get]; rfl) rfl (by decide) (by decide)
          (by decide) hzero (by decide)
  | mcycle =>
      rcases List.mem_pair.mp hmem with rfl | rfl
      · exact csrReads_counter (k := 0) (by rw [csrRead, bind_get]; rfl) rfl (by decide) (by decide)
          (by decide) hzero (by decide)
      · exact csrReads_machineCounter (by rw [csrRead, bind_get]; rfl) (hmachine (by decide))
          (by decide) (by decide) hzero (by decide)
  | cycleh =>
      obtain rfl := List.mem_singleton.mp hmem
      exact csrReads_counter (k := 0) (by rw [csrRead, bind_get]; rfl) rfl (by decide) (by decide)
        (by decide) hzero (by decide)
  | minstret | minstreth =>
      rcases List.mem_pair.mp hmem with rfl | rfl
      · exact csrReads_counter (k := 2) (by rw [csrRead, bind_get]; rfl) rfl (by decide) (by decide)
          (by decide) hzero (by decide)
      · exact csrReads_machineCounter (by rw [csrRead, bind_get]; rfl) (hmachine (by decide))
          (by decide) (by decide) hzero (by decide)
  | _ => simp at h

/-- The read handler of a CSR that the mode may access gives its value, or raises an exception. -/
theorem csrRead_eq {n : Nat} (hlisted : csrTable.listed n = true)
    (hlow : ((n / 256 % 4 : Nat) : Int) ≤ s.privilegeMode) (hs : CsrStateOk cfg s) :
    CsrReads cfg s n (csrEntry n).read := by
  obtain ⟨hkind, hcsrs, hnone, hcounter⟩ := csrEntries_read _ (csrEntry_mem hlisted)
  rw [csrEntry_number] at hkind hcsrs hnone hcounter
  have hzero : csrTable.zero n = ((csrEntry n).read == .zero || (csrEntry n).read == .hpmcounter) := rfl
  have hmachine (h : n / 256 % 4 = 3) : s.privilegeMode = 3 := by
    have hhigh := hs.mode.2
    rw [h] at hlow
    omega
  have hspecial (hother : (csrEntry n).read ∉ [.csrs, .zero, .hpmcounter]) :
      n ∈ readNumbers (csrEntry n).read ∧ csrTable.zero n = false := by
    refine ⟨hkind.resolve_left hother, ?_⟩
    simp only [List.mem_cons, List.not_mem_nil, or_false, not_or] at hother
    simp [hzero, hother]
  cases hread : (csrEntry n).read with
  | ILLEGAL_OP =>
      rw [hread] at hspecial
      exact absurd (hspecial (by decide)).1 List.not_mem_nil
  | csrs =>
      obtain ⟨hsource, hcell, hview⟩ := hcsrs hread
      obtain ⟨hbit, hne⟩ := hnone (by simp [hread])
      simp only [List.mem_cons, List.not_mem_nil, or_false, not_or] at hview
      rw [CsrReads, access_free hbit hne, Csr.read, hzero, hread, hsource, csrState_cell hcell]
      simp [hview]
      rfl
  | zero =>
      obtain ⟨hbit, hne⟩ := hnone (by simp [hread])
      rw [CsrReads, access_free hbit hne, Csr.read, hzero, hread]
      rfl
  | hpmcounter =>
      have hbit := hcounter hread
      have hne : n ≠ Csr.satp := by
        rintro rfl
        exact absurd hbit (by decide)
      rw [CsrReads, csrRead, readCounter_denied hbit (opAnd_natCast_31 n) (by omega) hne, Csr.read,
        hzero, hread]
      rfl
  | satp =>
      rw [hread] at hspecial
      obtain ⟨hmem, hzero⟩ := hspecial (by decide)
      obtain rfl := List.mem_singleton.mp hmem
      rw [CsrReads, csrRead_satp_eq, Csr.read, hzero]
      rfl
  | mstatus | sip | mip | sie | mie =>
      rw [hread] at hspecial
      obtain ⟨hmem, hzero⟩ := hspecial (by decide)
      exact csrRead_view hmem hzero hs (by decide)
  | stimecmp | mcycle | cycleh | minstret | minstreth | time =>
      rw [hread] at hspecial
      obtain ⟨hmem, hzero⟩ := hspecial (by decide)
      exact csrRead_counter hmem hzero hmachine (by decide)

/-! ## The end of the instruction -/

theorem raise_visible (e : End) (mip : Int) :
    opAnd (e.raise mip) 0b00111111111111111111111111111111 =
      opAnd mip 0b00111111111111111111111111111111 := by
  cases e with
  | endInstructionWithRdAndFireInterrupts => exact opAnd_opOr_of_disjoint (by decide) mip
  | endInstructionWithRdAndPollInterrupts =>
      exact (opAnd_opOr_of_disjoint (by decide) _).trans (opAnd_opOr_of_disjoint (by decide) mip)
  | _ => rfl

theorem incrementInstret_state (s : Hart) :
    csrState cfg (incrementInstret cfg s) = Csr.retire (csrState cfg s) := by
  have hminstreth : csrState cfg s Csr.minstreth = s.csr cfg minstrethCsr := csrState_cell (by decide)
  by_cases h : s.csrMinstret + 1 < 0x100000000
  · have hretire : Csr.retire (csrState cfg s) =
        Function.update (csrState cfg s) Csr.minstret (s.csrMinstret + 1) :=
      if_pos h
    have hincrement : incrementInstret cfg s = { s with csrMinstret := s.csrMinstret + 1 } := if_pos h
    rw [hretire, hincrement, csrState_csrMinstret]
  · have hretire : Csr.retire (csrState cfg s) =
      Function.update (Function.update (csrState cfg s) Csr.minstret 0)
        Csr.minstreth (csrState cfg s Csr.minstreth + 1) := if_neg h
    have hincrement : incrementInstret cfg s =
        { s with csrMinstret := 0 }.writeCsr cfg (.var minstrethCsr) (s.csr cfg minstrethCsr + 1) :=
          if_neg h
    rw [hretire, hincrement, csrState_writeCsr (by decide), csrState_csrMinstret, hminstreth]
    rfl

theorem finish_state (s : Hart) {e : End} (h : e.retires = true) :
    csrState cfg (finish cfg s e).2 = Csr.retire (csrState cfg s) := by
  have hwritten : csrState cfg (writeRd { s with csrMip := e.raise s.csrMip } e.rdId e.rd) =
      csrState cfg s := by
    have hraised : hartCsrs { s with csrMip := e.raise s.csrMip } = hartCsrs s := by
      rw [hartCsrs, hartCsrs, raise_visible]
    unfold writeRd
    split
    · exact csrState_congr (fun _ => rfl) hraised
    · exact csrState_congr (fun _ => rfl) hraised
  rw [finish_eq cfg s h, endInstructionTrap_snd, ← hwritten, ← incrementInstret_state]
  exact csrState_congr (fun _ => rfl) rfl

/-! ## Writes -/

/-- The CSR of a write handler that knows it. -/
def writeNumber : CsrWrite → Nat
  | .satp => Csr.satp
  | .mstatus => Csr.mstatus
  | .sstatus => Csr.sstatus
  | .sip => Csr.sip
  | .mip => Csr.mip
  | .sie => Csr.sie
  | .mie => Csr.mie
  | .stimecmp => Csr.stimecmp
  | .stimecmph => Csr.stimecmph
  | .mcycle => Csr.mcycle
  | .minstret => Csr.minstret
  | .minstreth => Csr.minstreth
  | .ILLEGAL_OP | .csrs | .readonly => 0

theorem csrEntries_write : ∀ e ∈ csrEntries,
    (e.write = .ILLEGAL_OP ↔ e.number / 1024 = 3) ∧
    (e.write = .readonly → e.read = .zero ∨ e.number = Csr.misa) ∧
    (e.write = .csrs → Csr.source e.number = e.number ∧ e.number ∉ hartCsrNumbers ∧
      e.number ∉ [Csr.sstatus, Csr.sie, Csr.sip, Csr.minstreth, Csr.misa] ∧
      e.read ∉ [.zero, .hpmcounter]) ∧
    (e.write ∉ [.ILLEGAL_OP, .csrs, .readonly] → e.number = writeNumber e.write ∧
      e.read ∉ [.zero, .hpmcounter]) := by
  decide +kernel

/-- Results of bitwise operations with the same bits. -/
theorem eq_of_bits {a b : Int} (ha : (long a).toInt = a) (hb : (long b).toInt = b)
    (h : ∀ i < 64, bit a i = bit b i) :
    a = b := by
  rw [← ha, ← hb, long_ext h]

theorem toInt_long_opAnd (a b : Int) :
    (long (opAnd a b)).toInt = opAnd a b := congrArg BitVec.toInt (long_opAnd a b)

theorem toInt_long_opOr (a b : Int) :
    (long (opOr a b)).toInt = opOr a b := congrArg BitVec.toInt (long_opOr a b)

/-- The masks of the worker have 32 bits. -/
theorem opAnd_complement {x mask complement : Int} (hx : Within 0xffffffff x)
    (h : ∀ i < 32, bit complement i = !bit mask i) : opAnd x complement = opAnd x (opNot mask) := by
  have hhigh : ∀ i < 64, 32 ≤ i → bit 0xffffffff i = false := by decide
  rw [opAnd_comm x, opAnd_comm x]
  refine opAnd_congr fun i hi hbit => ?_
  by_cases hlow : i < 32
  · rw [h i hlow, bit_opNot _ hi]
  · exact absurd (hbit.symm.trans (hx.bit_eq_false (hhigh i hi (not_lt.mp hlow)))) (by decide)

theorem within_mono {mask mask' a : Int} (h : Within mask a) (hmask : opAnd mask mask' = mask) :
    Within mask' a := by
  rw [Within, ← h, opAnd_assoc, hmask]

theorem within_word {x : Int} (h : IsWord x) : Within 0xffffffff x := by
  obtain ⟨h0, hlt⟩ := h
  have hmask := opAnd_mask x 0 32 (b := 0xffffffff) (by decide) (by decide)
  rw [Within, hmask]
  omega

theorem legalMpp_legalize {x : Int} (hx : IsWord x) : legalMpp x = Csr.legalize x := by
  have hcomplement : opAnd x 0b11111111111111111110011111111111 = opAnd x (opNot 0b1100000000000) :=
    opAnd_complement (within_word hx) (by decide)
  by_cases h : opAnd x 0b1100000000000 = 0b1000000000000
  · rw [legalMpp, if_neg (not_not.mpr h), Csr.legalize, if_pos h, hcomplement]
  · rw [legalMpp, if_pos h, Csr.legalize, if_neg h]

theorem writeSstatus_state (x : Int) : csrState cfg (writeSstatus s x) =
    Function.update (csrState cfg s) Csr.mstatus
      (opOr (opAnd s.csrMstatus 0b11111111111100111111111011011101) x) := by
  rw [← csrState_csrMstatus]
  exact csrState_congr (fun _ => rfl) rfl

theorem mip_merge (mip x : Int) :
    opAnd (opOr (opAnd mip 0b11111111111111111111110111111101)
      (opAnd x 0b00000000000000000000001000000010))
        0b00111111111111111111111111111111 =
      Csr.merge (opAnd mip 0b00111111111111111111111111111111) 0b00000000000000000000001000000010
        (opAnd x 0b00000000000000000000001000000010) := by
  have hmasks : ∀ i < 64, (bit 0b00111111111111111111111111111111 i = true →
        bit 0b11111111111111111111110111111101 i = !bit 0b00000000000000000000001000000010 i) ∧
      (bit 0b00111111111111111111111111111111 i = false →
        bit 0b00000000000000000000001000000010 i = false) := by
    decide
  refine eq_of_bits (toInt_long_opAnd _ _) (toInt_long_opOr _ _) fun i hi => ?_
  obtain ⟨hvisible, hhidden⟩ := hmasks i hi
  simp only [Csr.merge, bit_opAnd, bit_opOr, bit_opNot _ hi]
  cases hbit : bit 0b00111111111111111111111111111111 i with
  | false => simp [hhidden hbit]
  | true => simp [hvisible hbit]

theorem sip_merge {mideleg : Int} (h : Within 0b00111111111111111111111111111111 mideleg) (mip x : Int) :
    opAnd (opOr (opAnd mip (opNot mideleg)) (opAnd x mideleg)) 0b00111111111111111111111111111111 =
      Csr.merge (opAnd mip 0b00111111111111111111111111111111) mideleg x := by
  refine eq_of_bits (toInt_long_opAnd _ _) (toInt_long_opOr _ _) fun i hi => ?_
  simp only [Csr.merge, bit_opAnd, bit_opOr, bit_opNot _ hi]
  cases hbit : bit 0b00111111111111111111111111111111 i with
  | false => simp [h.bit_eq_false hbit]
  | true => simp

theorem csrWriteEnd_retires (rdId rd : Int) (w : CsrWrite) : (csrWriteEnd rdId rd w).retires = true := by
  cases w <;> rfl

theorem opOr_zero_word {x : Int} (h : IsWord x) : opOr x 0 = x := by
  obtain ⟨h0, hlt⟩ := h
  have hzero : long 0 = 0#64 := rfl
  rw [opOr, hzero, BitVec.or_zero, long_toInt (by omega) (by omega)]

/-- A write handler changes the source of its CSR. -/
def CsrWrites (cfg : PageConfig) (s : Hart) (n : Nat) (x : Int) (write : CsrWrite) : Prop :=
  csrState cfg (csrWriteHart cfg (.var n) x s write) =
    Function.update (csrState cfg s) (Csr.source n) (Csr.stored csrTable (csrState cfg s) n x)

theorem csrWrite_mstatus {x : Int} (hword : IsWord x) : CsrWrites cfg s Csr.mstatus x .mstatus := by
  have hlegal : IsWord (legalMpp x) := by
    unfold legalMpp
    split
    · exact hword
    · exact hword.opAnd _
  have hvalue : opOr (opAnd 0 0b11111111111100111111111011011101) (legalMpp x) = legalMpp x := by
    have hzero : opAnd 0 0b11111111111100111111111011011101 = 0 := by decide
    rw [hzero, opOr_comm]
    exact opOr_zero_word hlegal
  rw [CsrWrites, csrWriteHart, writeSstatus_state, csrState_csrMstatus, hvalue, Function.update_idem,
    legalMpp_legalize hword]
  rfl

theorem csrWrite_sstatus (hs : CsrStateOk cfg s) {x : Int} (hx : Within (csrTable.mask Csr.sstatus) x) :
    CsrWrites cfg s Csr.sstatus x .sstatus := by
  have hmask : csrTable.mask Csr.sstatus = 0b00000000000011000000000100100010 := by decide
  have hkept : opAnd s.csrMstatus 0b11111111111100111111111011011101 =
      opAnd s.csrMstatus (opNot 0b00000000000011000000000100100010) :=
        opAnd_complement hs.mstatus (by decide)
  have hmerge : opOr (opAnd s.csrMstatus 0b11111111111100111111111011011101) x =
      Csr.merge s.csrMstatus (csrTable.mask Csr.sstatus) x := by
    rw [Csr.merge, hx, hmask, hkept]
  rw [CsrWrites, csrWriteHart, writeSstatus_state, hmerge]
  rfl

theorem csrWrite_sip (hs : CsrStateOk cfg s) (x : Int) : CsrWrites cfg s Csr.sip x .sip := by
  rw [CsrWrites, csrWriteHart, csrState_csrMip, sip_merge hs.mideleg]
  rfl

theorem csrWrite_mip {x : Int} (hx : Within (csrTable.mask Csr.mip) x) :
    CsrWrites cfg s Csr.mip x .mip := by
  have hmask : csrTable.mask Csr.mip = 0b00000000000000000000001000000010 := by decide
  rw [hmask] at hx
  rw [CsrWrites, csrWriteHart, csrState_csrMip, ← hx, mip_merge, hx]
  change _ = Function.update (csrState cfg s) Csr.mip (Csr.merge _ (csrTable.mask Csr.mip) x)
  rw [hmask]
  rfl

/-- The handlers that write a variable of the worker or a cell of CSRS as it is. -/
theorem csrWrite_plain {n : Nat} {write : CsrWrite} (hnumber : n = writeNumber write) (x : Int)
    (h : write ∈ [.satp, .sie, .mie, .stimecmp, .stimecmph, .mcycle]) : CsrWrites cfg s n x write := by
  subst hnumber
  unfold CsrWrites
  cases write with
  | satp =>
      refine (csrState_writeCsr (by decide) x).trans ?_
      rw [csrState_congr (s := s) (fun _ => rfl) rfl]
      rfl
  | sie | mie =>
      rw [csrWriteHart, csrState_csrMie]
      rfl
  | stimecmp =>
      rw [csrWriteHart, csrState_csrStimecmp]
      rfl
  | stimecmph =>
      rw [csrWriteHart, csrState_csrStimecmph]
      rfl
  | mcycle =>
      rw [csrWriteHart, csrState_csrMcycle]
      rfl
  | _ => simp at h

/-- A write handler other than those of minstret and minstreth changes the source of its CSR. -/
theorem csrWriteHart_state {n : Nat} (hlisted : csrTable.listed n = true) (hwritable : n / 1024 ≠ 3)
    (hs : CsrStateOk cfg s) (hn : n ≠ Csr.minstret ∧ n ≠ Csr.minstreth) {x : Int} (hword : IsWord x)
    (hx : Within (csrTable.mask n) x) :
    csrState cfg (csrWriteHart cfg (.var n) x s (csrEntry n).write) =
      Csr.write csrTable (csrState cfg s) n x := by
  obtain ⟨hillegal, hreadonly, hcsrs, hkind⟩ := csrEntries_write _ (csrEntry_mem hlisted)
  rw [csrEntry_number] at hillegal hreadonly hcsrs hkind
  have hzero (h : (csrEntry n).read ∉ [.zero, .hpmcounter]) : csrTable.zero n = false := by
    simp only [List.mem_cons, List.not_mem_nil, or_false, not_or] at h
    simp [csrTable, h]
  have hspecial (hother : (csrEntry n).write ∉ [.ILLEGAL_OP, .csrs, .readonly])
      (hwrites : n = writeNumber (csrEntry n).write → CsrWrites cfg s n x (csrEntry n).write) :
      csrState cfg (csrWriteHart cfg (.var n) x s (csrEntry n).write) =
        Csr.write csrTable (csrState cfg s) n x := by
    obtain ⟨hnumber, hread⟩ := hkind hother
    have hmisa : n ≠ Csr.misa := by
      rintro rfl
      revert hother
      decide
    rw [Csr.write, hzero hread, if_neg (by simp [hmisa])]
    exact hwrites hnumber
  cases hwrite : (csrEntry n).write with
  | ILLEGAL_OP => exact absurd (hillegal.mp hwrite) hwritable
  | readonly =>
      have hkept : csrTable.zero n = true ∨ n = Csr.misa := by
        rcases hreadonly hwrite with hread | hmisa
        · exact Or.inl (by simp [csrTable, hread])
        · exact Or.inr hmisa
      rw [Csr.write, if_pos hkept]
      rfl
  | csrs =>
      obtain ⟨hsource, hcell, hview, hread⟩ := hcsrs hwrite
      have hfree : n ≠ Csr.mstatus ∧ n ≠ Csr.mie ∧ n ≠ Csr.mip := by
        refine ⟨?_, ?_, ?_⟩ <;> rintro rfl <;> exact hcell (by decide)
      simp only [List.mem_cons, List.not_mem_nil, or_false, not_or] at hview
      have hstored : Csr.stored csrTable (csrState cfg s) n x = x := by
        simp [Csr.stored, hfree, hview]
      rw [Csr.write, hzero hread, if_neg (by simp [hview]), hsource, hstored]
      exact csrState_writeCsr hcell x
  | mstatus =>
      rw [hwrite] at hspecial
      exact hspecial (by decide) fun hnumber => hnumber ▸ csrWrite_mstatus hword
  | sstatus =>
      rw [hwrite] at hspecial
      refine hspecial (by decide) fun hnumber => ?_
      obtain rfl : n = Csr.sstatus := hnumber
      exact csrWrite_sstatus hs hx
  | sip =>
      rw [hwrite] at hspecial
      exact hspecial (by decide) fun hnumber => hnumber ▸ csrWrite_sip hs x
  | mip =>
      rw [hwrite] at hspecial
      refine hspecial (by decide) fun hnumber => ?_
      obtain rfl : n = Csr.mip := hnumber
      exact csrWrite_mip hx
  | satp | sie | mie | stimecmp | stimecmph | mcycle =>
      rw [hwrite] at hspecial
      exact hspecial (by decide) fun hnumber => csrWrite_plain hnumber x (by decide)
  | minstret =>
      obtain ⟨hnumber, -⟩ := hkind (by simp [hwrite])
      exact absurd (hnumber.trans (congrArg writeNumber hwrite)) hn.1
  | minstreth =>
      obtain ⟨hnumber, -⟩ := hkind (by simp [hwrite])
      exact absurd (hnumber.trans (congrArg writeNumber hwrite)) hn.2

end Mlogv32.Cpu
