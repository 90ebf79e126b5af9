import Mlogv32.Cpu.Lemmas.Access

/-!
# RAM is a byte memory

Runs of loads, stores and atomics on RAM refine the byte memory of the architecture.
-/

namespace Mlogv32.Cpu
open Mlog Logic Isa

/-! ## Runs -/

/-- An access at a physical address. `value` is that of rs2. -/
structure MemAccess where
  op : MemOp
  address : Int
  value : BitVec 32
  rdId : Int

/-- A run of accesses to RAM, with the end of each handler. Between two accesses the hart may do
anything that does not touch RAM and the reservation. -/
inductive Accesses (cfg : Config) : Hart → List MemAccess → List End → Hart → Prop
  | nil (s : Hart) : Accesses cfg s [] [] s
  | elsewhere {s t u : Hart} {xs : List MemAccess} {es : List End}
      (h : memState cfg t = memState cfg s) (run : Accesses cfg t xs es u) : Accesses cfg s xs es u
  | access {s s' t u : Hart} {xs : List MemAccess} {es : List End} {d : Fetched}
      {label : Label} {op : MemOp}
      {rs1 rs2 : BitVec 32} {a : Int} {e : End} (hlabel : labels (d.opId + 192) = some label)
      (hop : memOp label = some op) (haddr : physicalAddress cfg op d.imm rs1.toNat s = .ok a s')
      (ha : InRam cfg a) (hx : execute cfg d rs1.toNat rs2.toNat s = .ok e t)
      (run : Accesses cfg t xs es u) :
      Accesses cfg s ({ op := op, address := a, value := rs2, rdId := d.rdId } :: xs) (e :: es) u

/-- The run of the reference memory. -/
def referenceRun (m : MemState) : List MemAccess → List End × MemState
  | [] => ([], m)
  | x :: xs =>
      let r := m.access x.address x.value x.op
      let rest := referenceRun r.2 xs
      (accessEnd x.rdId r.1 :: rest.1, rest.2)

/-! ## Refinement -/

theorem start_ramBytes (cfg : Config) (uarts : Uarts) :
    ramBytes cfg (Machine.start cfg uarts).hart.procs = fun _ => 0 := by
  funext a
  unfold ramBytes
  split
  · rename_i ha
    have hcells : InCells cfg (a - ramStart) := by
      unfold InRam PageConfig.ramEnd at ha
      unfold InCells
      omega
    have hnull : cell cfg (Machine.start cfg uarts).hart.procs (a - ramStart) = .null := by
      unfold cell
      rw [accessRamRaw_eq cfg hcells.1]
      have htile := accessRamRaw_fst cfg hcells.1
      refine (resetHart_procs_of_ne _ _ (htile ▸ hcells.ne_csrs) _).trans ?_
      simp only [Machine.powerOn, initProcs]
      rw [if_neg (htile ▸ hcells.ne_incr), if_neg (htile ▸ hcells.ne_csrLabels)]
    rw [loadRamWordUnchecked_eq, hnull]
    rw [show swapEndianness Value.null.toNum = 0 by decide]
    simp [Memory.byte]
  · rfl

/-- RAM starts empty, every access to RAM ends, and every run of accesses returns what the reference
memory returns and leaves the bytes that it leaves. -/
theorem accesses_refine (cfg : Config) :
    (∀ uarts, ramBytes cfg (Machine.start cfg uarts).hart.procs = fun _ => 0) ∧
    (∀ (d : Fetched) (label : Label) (op : MemOp) (rs1 rs2 : BitVec 32) (s s' : Hart) (a : Int),
      labels (d.opId + 192) = some label → memOp label = some op →
      physicalAddress cfg op d.imm rs1.toNat s = .ok a s' → InRam cfg a →
      ∃ e t, execute cfg d rs1.toNat rs2.toNat s = .ok e t) ∧
    (∀ (s u : Hart) (xs : List MemAccess) (es : List End), Accesses cfg s xs es u →
      referenceRun (memState cfg s) xs = (es, memState cfg u)) := by
  refine ⟨start_ramBytes cfg, fun d label op rs1 rs2 s s' a hlabel hop haddr ha =>
    ?_, fun s u xs es run => ?_⟩
  · obtain ⟨t, ht, -⟩ := execute_access rs2 hlabel hop haddr ha
    exact ⟨_, t, ht⟩
  · induction run with
    | nil s => rfl
    | elsewhere h _ ih => rw [← h, ih]
    | access hlabel hop haddr ha hx _ ih =>
        obtain ⟨t, ht, hmem⟩ := execute_access _ hlabel hop haddr ha
        obtain ⟨rfl, rfl⟩ := EStateM.Result.ok.inj (hx.symm.trans ht)
        rw [referenceRun, ← hmem, ih]

/-! The fetched instructions `sb x2, 1(x1)`, `lb x3, 1(x1)` and `lhu x4, 0(x1)`. -/

def sbX2 : Fetched :=
  { opId := -50, imm := 1, result := 8937826942976, rdId := 1, rs1Id := 1, rs2Id := 2 }

def lbX3 : Fetched :=
  { opId := -56, imm := 1, result := 4548370366464, rdId := 3, rs1Id := 1, rs2Id := 1 }

def lhuX4 : Fetched :=
  { opId := -51, imm := 0, result := 154618822656, rdId := 4, rs1Id := 1, rs2Id := 0 }

/-- The byte 0x80 is stored behind the start of RAM, and loaded with its sign and as the upper half
of two bytes. -/
def byteAccesses : List MemAccess :=
  [{ op := .store .sb, address := 0x80000001, value := 0x80, rdId := 1 },
    { op := .load .lb, address := 0x80000001, value := 0x80, rdId := 3 },
    { op := .load .lhu, address := 0x80000000, value := 0, rdId := 4 }]

/-- The hart behind an instruction with x1 at the start of RAM. -/
def behind (d : Fetched) (rs2 : BitVec 32) (s : Hart) : Hart :=
  match execute (smallBuild fun _ _ => none) d (0x80000000#32).toNat rs2.toNat s with
  | .ok _ t | .error _ t => t

theorem eq_behind {d : Fetched} {rs2 : BitVec 32} {s t : Hart} {e : End}
    (h : execute (smallBuild fun _ _ => none) d (0x80000000#32).toNat rs2.toNat s = .ok e t) :
    t = behind d rs2 s := by
  rw [behind, h]

theorem accesses_refine_bytes :
    ∃ u, Accesses (smallBuild fun _ _ => none) bareHart byteAccesses
        [.endInstructionWithRd 0 0, .endInstructionWithRd 3 0xffffff80,
          .endInstructionWithRd 4 0x8000] u ∧
      referenceRun (memState (smallBuild fun _ _ => none) bareHart) byteAccesses =
        ([.endInstructionWithRd 0 0, .endInstructionWithRd 3 0xffffff80, .endInstructionWithRd 4 0x8000],
          memState (smallBuild fun _ _ => none) u) := by
  obtain ⟨-, hends, hrefine⟩ := accesses_refine (smallBuild fun _ _ => none)
  have hsb : labels (sbX2.opId + 192) = some .SB := by decide +kernel
  have hlb : labels (lbX3.opId + 192) = some .LB := by decide +kernel
  have hlhu : labels (lhuX4.opId + 192) = some .LHU := by decide +kernel
  have haddr {s : Hart} (hmode : ¬s.effectivePrivilegeMode < 0b11) :
      setupLoadAndStoreValue (smallBuild fun _ _ => none) 6 (0x80000000#32).toNat 1 8 s =
        .ok 0x80000001 s ∧
      setupLoadAndStoreValue (smallBuild fun _ _ => none) 4 (0x80000000#32).toNat 1 8 s =
        .ok 0x80000001 s ∧
      setupLoadAndStoreValue (smallBuild fun _ _ => none) 4 (0x80000000#32).toNat 0 16 s =
        .ok 0x80000000 s :=
    ⟨setupLoadAndStoreValue_machine hmode (by decide), setupLoadAndStoreValue_machine hmode (by decide),
      setupLoadAndStoreValue_machine hmode (by decide)⟩
  have hsbAddr : physicalAddress (smallBuild fun _ _ => none) (.store .sb) sbX2.imm
    (0x80000000#32).toNat bareHart =
      .ok 0x80000001 bareHart := (haddr (by decide)).1
  obtain ⟨e, s, hx⟩ :=
    hends sbX2 .SB (.store .sb) 0x80000000#32 0x80#32 bareHart bareHart 0x80000001 hsb rfl hsbAddr
    (by decide)
  have hs : ¬s.effectivePrivilegeMode < 0b11 := by
    rw [eq_behind hx]
    decide +kernel
  have hlbAddr : physicalAddress (smallBuild fun _ _ => none) (.load .lb) lbX3.imm
    (0x80000000#32).toNat s =
      .ok 0x80000001 s := (haddr hs).2.1
  obtain ⟨e', t, hx'⟩ :=
    hends lbX3 .LB (.load .lb) 0x80000000#32 0x80#32 s s 0x80000001 hlb rfl hlbAddr (by decide)
  have ht : ¬t.effectivePrivilegeMode < 0b11 := by
    rw [eq_behind hx', eq_behind hx]
    decide +kernel
  have hlhuAddr : physicalAddress (smallBuild fun _ _ => none) (.load .lhu) lhuX4.imm
    (0x80000000#32).toNat t =
      .ok 0x80000000 t := (haddr ht).2.2
  obtain ⟨e'', u, hx''⟩ :=
    hends lhuX4 .LHU (.load .lhu) 0x80000000#32 0 t t 0x80000000 hlhu rfl hlhuAddr (by decide)
  have hrun : Accesses (smallBuild fun _ _ => none) bareHart byteAccesses [e, e', e''] u :=
    .access hsb rfl hsbAddr (by decide) hx (.access hlb rfl hlbAddr (by decide) hx'
      (.access hlhu rfl hlhuAddr (by decide) hx'' (.nil u)))
  have hreference := hrefine _ _ _ _ hrun
  have hvalues : (referenceRun (memState (smallBuild fun _ _ => none) bareHart) byteAccesses).1 =
      [.endInstructionWithRd 0 0, .endInstructionWithRd 3 0xffffff80,
        .endInstructionWithRd 4 0x8000] := by
    decide +kernel
  rw [hreference] at hvalues
  dsimp only at hvalues
  rw [hvalues] at hrun hreference
  exact ⟨u, hrun, hreference⟩

end Mlogv32.Cpu
