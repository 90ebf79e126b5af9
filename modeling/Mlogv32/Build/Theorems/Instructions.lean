import Mlogv32.Build.Instructions

/-!
# The layout of the label table

The entries of an accepted list are placed one after another, and the controller stores the label of
each of them in its cells, exactly if the layout lies in the memory cell. The division that aligns
an address is one of doubles, and a cell past the end of LABELS is not written.
-/

namespace Mlogv32.Build
open Logic Mlog Python

/-! ## The exact layout -/

/-- The least multiple of `align` from `address` on. -/
def alignUp (align address : Int) : Int := ⌈(address / align : ℚ)⌉ * align

/-- The start of an entry after an entry that ends at `address`. -/
def Instruction.start (x : Instruction) (address : Int) : Int := x.address.getD (alignUp x.align address)

/-- The number of cells of an entry. -/
def Instruction.cells (x : Instruction) (start : Int) : Int :=
  match x.upTo with
  | none => x.count
  | some upTo => upTo - start + 1

/-- The first and the last cell of every entry lie below `size`. -/
def Fits (size : Int) : Int → List Instruction → Prop
  | _, [] => True
  | address, x :: xs =>
    let start := x.start address
    let count := x.cells start
    start < size ∧ start + (count - 1) * x.align < size ∧ Fits size (start + count * x.align) xs

/-- Every entry without an address is at the least multiple of its alignment from the end of the
previous one on. -/
def Aligned : Int → List Instruction → List ResolvedInstruction → Prop
  | address, x :: xs, r :: rs =>
    (x.address = none → IsLeast {a | x.align ∣ a ∧ address ≤ a} r.address) ∧ Aligned r.stop xs rs
  | _, _, _ => True

/-- The cells of an entry. -/
def ResolvedInstruction.Cell (r : ResolvedInstruction) (a : Int) : Prop :=
  ∃ k : Nat, k < r.count ∧ a = r.address + k * r.align

/-- What the build says of the table, for the entries `rs` that the list `xs` resolves to. -/
structure LabelTable (labels : String → Option Int) (xs : List Instruction)
    (rs : List ResolvedInstruction) (codes : List InitLabels) (cell : List Int) : Prop where
  increasing : rs.Pairwise fun r s => r.stop ≤ s.address
  aligned : Aligned 0 xs rs
  upTo : List.Forall₂ (fun x r => ∀ upTo, x.upTo = some upTo → ∀ a, r.address ≤ a →
    a ≤ upTo → r.Cell a) xs rs
  stored : ∃ fuel cell', runInitLabels fuel codes cell = some cell' ∧
    ∀ r ∈ rs, ∀ a, r.Cell a → ∃ value, labels r.label = some value ∧ readCell cell' a = some value
  kept : ∀ (i j : Nat) code s, i ≠ j → codes[i]? = some code → rs[j]? = some s →
    ∀ fuel indices, code.indices fuel = some indices → ∀ a ∈ indices, ¬ s.Cell a

theorem alignUp_isLeast {align : Int} (h : 1 ≤ align) (address : Int) :
    IsLeast {a | align ∣ a ∧ address ≤ a} (alignUp align address) := by
  have hpos : (0 : ℚ) < align := by exact_mod_cast h
  refine ⟨⟨Dvd.intro_left _ rfl, ?_⟩, ?_⟩
  · have hceil := Int.le_ceil (address / align : ℚ)
    rw [div_le_iff₀ hpos, ← Int.cast_mul] at hceil
    exact Int.cast_le.mp hceil
  · rintro _ ⟨⟨k, rfl⟩, hle⟩
    rw [alignUp, mul_comm align k]
    refine mul_le_mul_of_nonneg_right (Int.ceil_le.mpr ?_) (by omega)
    rw [div_le_iff₀ hpos, mul_comm (k : ℚ)]
    exact_mod_cast hle

/-! ## One entry -/

section
variable {i : Nat} {address : Int} {x : Instruction} {r : ResolvedInstruction}

/-- What resolving an entry gives. -/
structure Resolves (address : Int) (x : Instruction) (r : ResolvedInstruction) : Prop where
  label : r.label = x.label
  align : r.align = x.align
  computed : x.address = none → trueDivide address x.align = .ok (double (address / x.align)) ∧
    r.address = ⌈double (address / x.align)⌉ * x.align
  explicit : ∀ a, x.address = some a → address ≤ a ∧ r.address = a
  count : r.count = x.cells r.address
  upTo : ∀ upTo, x.upTo = some upTo → x.align = 1 ∧ r.address ≤ upTo

theorem resolveInstruction_ok (h : resolveInstruction i address x = .ok r) : Resolves address x r := by
  rw [resolveInstruction] at h
  cases haddress : resolveAddress i address x with
  | error e =>
      rw [haddress] at h
      cases h
  | ok start =>
      have hcomputed : x.address = none → trueDivide address x.align = .ok (double (address / x.align)) ∧
          start = ⌈double (address / x.align)⌉ * x.align := by
        intro hnone
        rw [resolveAddress, hnone, trueDivide] at haddress
        rw [trueDivide]
        split_ifs at haddress ⊢
        cases haddress
        exact ⟨rfl, rfl⟩
      have hexplicit : ∀ a, x.address = some a → address ≤ a ∧ start = a := by
        intro a hsome
        rw [resolveAddress, hsome] at haddress
        simp only at haddress
        split_ifs at haddress with hlt
        cases haddress
        exact ⟨not_lt.mp hlt, rfl⟩
      rw [haddress] at h
      cases hupTo : x.upTo with
      | none =>
          simp only [hupTo] at h
          cases h
          exact ⟨rfl, rfl, hcomputed, hexplicit, by simp [Instruction.cells, hupTo], by simp [hupTo]⟩
      | some upTo =>
          simp only [hupTo] at h
          split_ifs at h with halign hlt
          cases h
          refine ⟨rfl, rfl, hcomputed, hexplicit, by simp [Instruction.cells, hupTo], fun u hu => ?_⟩
          obtain rfl : upTo = u := Option.some.inj (hupTo.symm.trans hu)
          exact ⟨not_not.mp halign, not_lt.mp hlt⟩

theorem Resolves.one_le_count (h : Resolves address x r) : 1 ≤ r.count := by
  rw [h.count, Instruction.cells]
  cases hupTo : x.upTo with
  | none => exact x.one_le_count
  | some upTo =>
      have hle := (h.upTo upTo hupTo).2
      simp only
      omega

theorem Resolves.one_le_align (h : Resolves address x r) : 1 ≤ r.align := h.align ▸ x.one_le_align

theorem Resolves.address_lt_stop (h : Resolves address x r) : r.address < r.stop := by
  have hcells : 0 < r.count * r.align := mul_pos h.one_le_count h.one_le_align
  rw [ResolvedInstruction.stop]
  omega

/-- Below 2^53 the division is exact. -/
theorem Resolves.address_eq (h : Resolves address x r) (hnonneg : 0 ≤ address)
    (hlt : x.start address < 2 ^ 53) :
    r.address = x.start address := by
  cases haddress : x.address with
  | some a => rw [(h.explicit a haddress).2, Instruction.start, haddress, Option.getD_some]
  | none =>
      rw [Instruction.start, haddress, Option.getD_none] at hlt ⊢
      obtain ⟨⟨hdvd, hle⟩, -⟩ := alignUp_isLeast x.one_le_align address
      have halign : address = 0 ∨ x.align < 2 ^ 53 := by
        rcases hnonneg.eq_or_lt with h0 | hpos
        · exact .inl h0.symm
        · exact .inr ((Int.le_of_dvd (hpos.trans_le hle) hdvd).trans_lt hlt)
      rw [(h.computed haddress).2, ceil_double hnonneg x.one_le_align (hle.trans_lt hlt) halign, alignUp]

/-- The first cell is where the exact layout has it, if it is the least multiple. -/
theorem Resolves.address_eq_of_isLeast (h : Resolves address x r)
    (haligned : x.address = none → IsLeast {a | x.align ∣ a ∧ address ≤ a} r.address) :
    r.address = x.start address := by
  cases haddress : x.address with
  | some a => rw [(h.explicit a haddress).2, Instruction.start, haddress, Option.getD_some]
  | none =>
      rw [Instruction.start, haddress, Option.getD_none]
      exact (haligned haddress).unique (alignUp_isLeast x.one_le_align address)

end

/-! ## The list -/

variable {address size : Int} {x : Instruction} {r : ResolvedInstruction} {xs : List Instruction}
  {rs : List ResolvedInstruction}

/-- `Resolves` for the entries of a list. -/
inductive ResolvesFrom : Int → List Instruction → List ResolvedInstruction → Prop
  | nil {address : Int} : ResolvesFrom address [] []
  | cons {address : Int} {x : Instruction} {r : ResolvedInstruction} {xs : List Instruction}
      {rs : List ResolvedInstruction}
      (head : Resolves address x r) (tail : ResolvesFrom r.stop xs rs) :
      ResolvesFrom address (x :: xs) (r :: rs)

theorem resolveInstructionsFrom_ok {i : Nat} (h : resolveInstructionsFrom i address xs = .ok rs) :
    ResolvesFrom address xs rs := by
  induction xs generalizing i address rs with
  | nil =>
      cases h
      exact .nil
  | cons x xs ih =>
      rw [resolveInstructionsFrom] at h
      cases hx : resolveInstruction i address x with
      | error e =>
          rw [hx] at h
          cases h
      | ok r =>
          simp only [hx] at h
          cases hrest : resolveInstructionsFrom (i + 1) r.stop xs with
          | error e =>
              rw [hrest] at h
              cases h
          | ok rest =>
              rw [hrest] at h
              cases h
              exact .cons (resolveInstruction_ok hx) (ih hrest)

/-- `ResolvesFrom` with every entry where the exact layout has it. -/
inductive Exact : Int → List Instruction → List ResolvedInstruction → Prop
  | nil {address : Int} : Exact address [] []
  | cons {address : Int} {x : Instruction} {r : ResolvedInstruction} {xs : List Instruction}
      {rs : List ResolvedInstruction}
      (head : Resolves address x r) (start : r.address = x.start address) (tail : Exact r.stop xs rs) :
      Exact address (x :: xs) (r :: rs)

theorem Resolves.le_start (h : Resolves address x r) : address ≤ x.start address := by
  cases haddress : x.address with
  | some a =>
      rw [Instruction.start, haddress, Option.getD_some]
      exact (h.explicit a haddress).1
  | none =>
      rw [Instruction.start, haddress, Option.getD_none]
      exact (alignUp_isLeast x.one_le_align address).1.2

theorem Resolves.stop_eq (h : Resolves address x r) (haddress : r.address = x.start address) :
    r.stop = x.start address + x.cells (x.start address) * x.align := by
  rw [ResolvedInstruction.stop, h.count, h.align, haddress]

theorem exact_of_fits (h : ResolvesFrom address xs rs) (hnonneg : 0 ≤ address) (hsize : size ≤ 2 ^ 53)
    (hfits : Fits size address xs) : Exact address xs rs := by
  induction h with
  | nil => exact .nil
  | cons head tail ih =>
      obtain ⟨hstart, -, hfits⟩ := hfits
      have haddress := head.address_eq hnonneg (hstart.trans_le hsize)
      have hle := head.le_start
      have hlt := head.address_lt_stop
      exact .cons head haddress (ih (by omega) (head.stop_eq haddress ▸ hfits))

theorem exact_of_aligned (h : ResolvesFrom address xs rs) (haligned : Aligned address xs rs) :
    Exact address xs rs := by
  induction h with
  | nil => exact .nil
  | cons head tail ih => exact .cons head (head.address_eq_of_isLeast haligned.1) (ih haligned.2)

namespace Exact

theorem fits_iff (h : Exact address xs rs) :
    Fits size address xs ↔ ∀ r ∈ rs, r.address < size ∧ r.address + (r.count - 1) * r.align < size := by
  induction h with
  | nil => simp [Fits]
  | cons head start tail ih =>
      rw [head.stop_eq start] at ih
      rw [Fits, ih, List.forall_mem_cons, head.count, head.align, start, and_assoc]

theorem le (h : Exact address xs rs) : ∀ r ∈ rs, address ≤ r.address := by
  induction h with
  | nil => simp
  | cons head start tail ih =>
      have hle := head.le_start
      have hlt := head.address_lt_stop
      intro s hs
      rcases List.mem_cons.mp hs with rfl | hs
      · omega
      · have hrest := ih s hs
        omega

theorem pairwise (h : Exact address xs rs) : rs.Pairwise fun r s => r.stop ≤ s.address := by
  induction h with
  | nil => exact .nil
  | cons head start tail ih => exact .cons tail.le ih

theorem aligned (h : Exact address xs rs) : Aligned address xs rs := by
  induction h with
  | nil => trivial
  | @cons address x r xs rs head start tail ih =>
      refine ⟨fun hnone => ?_, ih⟩
      rw [start, Instruction.start, hnone, Option.getD_none]
      exact alignUp_isLeast x.one_le_align address

theorem resolves (h : Exact address xs rs) : ∀ r ∈ rs, ∃ address x, Resolves address x r := by
  induction h with
  | nil => simp
  | cons head start tail ih => exact List.forall_mem_cons.mpr ⟨⟨_, _, head⟩, ih⟩

end Exact

theorem Resolves.covers (h : Resolves address x r) {upTo a : Int} (hupTo : x.upTo = some upTo)
    (hle : r.address ≤ a) (hle' : a ≤ upTo) : r.Cell a := by
  have halign := (h.upTo upTo hupTo).1
  have hcount : r.count = upTo - r.address + 1 := by rw [h.count, Instruction.cells, hupTo]
  refine ⟨(a - r.address).toNat, by omega, ?_⟩
  rw [h.align, halign]
  omega

theorem Exact.covers (h : Exact address xs rs) :
    List.Forall₂ (fun x r => ∀ upTo, x.upTo = some upTo → ∀ a, r.address ≤ a →
      a ≤ upTo → r.Cell a) xs rs := by
  induction h with
  | nil => exact .nil
  | cons head start tail ih => exact .cons (fun _ hupTo _ hle hle' => head.covers hupTo hle hle') ih

/-! ## The initialisation of an entry -/

theorem mem_unroll {i align a : Int} {n : Nat} :
    a ∈ unroll i align n ↔ ∃ k : Nat, k < n ∧ a = i + k * align := by
  induction n generalizing i with
  | zero => simp [unroll]
  | succ n ih =>
      rw [unroll, List.mem_cons, ih]
      constructor
      · rintro (rfl | ⟨k, hk, rfl⟩)
        · exact ⟨0, by omega, by simp⟩
        · refine ⟨k + 1, by omega, ?_⟩
          push_cast
          ring
      · rintro ⟨k, hk, rfl⟩
        cases k with
        | zero => exact .inl (by simp)
        | succ k =>
            refine .inr ⟨k, by omega, ?_⟩
            push_cast
            ring

theorem loopIndices_eq {i align : Int} (hi : 0 ≤ i) (halign : 1 ≤ align) {n fuel : Nat}
    (hfuel : n < fuel) (hlt : i + (n + 1) * align ≤ 2 ^ 53) :
    loopIndices align (i + (n + 1) * align) fuel i = some (unroll i align (n + 1)) := by
  induction n generalizing i fuel with
  | zero =>
      cases fuel with
      | zero => omega
      | succ fuel => 
          have hexact : toDouble (i + align) = i + align :=
            toDouble_of_exact ⟨by omega, by simpa using hlt⟩
          simp [loopIndices, hexact, unroll]
  | succ n ih =>
      cases fuel with
      | zero => omega
      | succ fuel =>
          have hpos : 0 < (n + 1 : Int) * align := by positivity
          have hsum : i + ((n + 1 : Nat) + 1 : Int) * align = (i + align) + (n + 1) * align := by
            push_cast
            ring
          rw [hsum] at hlt ⊢
          have hexact : toDouble (i + align) = i + align := toDouble_of_exact ⟨by omega, by omega⟩
          rw [loopIndices, hexact, if_pos (by omega), ih (by omega) (by omega) hlt]
          rfl

theorem loopIndices_mono {align stop i : Int} {fuel fuel' : Nat} {indices : List Int}
    (hle : fuel ≤ fuel') (h : loopIndices align stop fuel i = some indices) :
    loopIndices align stop fuel' i = some indices := by
  induction fuel generalizing i fuel' indices with
  | zero => cases h
  | succ fuel ih =>
      obtain ⟨fuel', rfl⟩ : ∃ n, fuel' = n + 1 := ⟨fuel' - 1, by omega⟩
      rw [loopIndices] at h ⊢
      split at h
      · obtain ⟨rest, hrest, rfl⟩ := Option.map_eq_some_iff.mp h
        rw [if_pos ‹_›, ih (by omega) hrest]
        rfl
      · rw [if_neg ‹_›, h]

theorem InitLabels.indices_mono {code : InitLabels} {fuel fuel' : Nat} {indices : List Int}
    (hle : fuel ≤ fuel') (h : code.indices fuel = some indices) :
    code.indices fuel' = some indices := by
  cases code with
  | unrolled value is => exact h
  | loop value start align stop => exact loopIndices_mono hle h

/-- An entry whose cells lie in the memory cell. -/
structure ResolvedInstruction.Inside (r : ResolvedInstruction) (size : Int) : Prop where
  nonneg : 0 ≤ r.address
  one_le_count : 1 ≤ r.count
  one_le_align : 1 ≤ r.align
  last_lt : r.address + (r.count - 1) * r.align < size

section
variable {labels : String → Option Int} {code : InitLabels} {fuel : Nat}

theorem ResolvedInstruction.Inside.count_le (h : r.Inside size) : r.count ≤ size := by
  have hpos := h.one_le_count
  have hmul : (r.count - 1) * 1 ≤ (r.count - 1) * r.align :=
    mul_le_mul_of_nonneg_left h.one_le_align (by omega)
  have hlast := h.last_lt
  have hnonneg := h.nonneg
  omega

theorem ResolvedInstruction.Inside.cell_lt (h : r.Inside size) {a : Int} (ha : r.Cell a) :
    0 ≤ a ∧ a < size := by
  obtain ⟨k, hk, rfl⟩ := ha
  have halign := h.one_le_align
  have hmul : k * r.align ≤ (r.count - 1) * r.align := mul_le_mul_of_nonneg_right (by omega) (by omega)
  have hpos : 0 ≤ k * r.align := by positivity
  have hlast := h.last_lt
  have hnonneg := h.nonneg
  constructor <;> omega

theorem not_cell_of_stop_le {s : ResolvedInstruction} (hr : r.Inside size)
    (hle : r.stop ≤ s.address) (hs : s.Inside size) {a : Int} (ha : r.Cell a) : ¬ s.Cell a := by
  rintro ⟨k, -, heq⟩
  obtain ⟨j, hj, rfl⟩ := ha
  have hlt : j * r.align < r.count * r.align := by
    have halign := hr.one_le_align
    exact mul_lt_mul_of_pos_right hj (by omega)
  have hpos : 0 ≤ k * s.align := by
    have halign := hs.one_le_align
    positivity
  rw [ResolvedInstruction.stop] at hle
  omega

theorem stop_le_of_lt (h : rs.Pairwise fun r s => r.stop ≤ s.address) {s : ResolvedInstruction}
    {i j : Nat} (hlt : i < j) (hr : rs[i]? = some r) (hs : rs[j]? = some s) :
    r.stop ≤ s.address := by
  obtain ⟨hi, rfl⟩ := List.getElem?_eq_some_iff.mp hr
  obtain ⟨hj, rfl⟩ := List.getElem?_eq_some_iff.mp hs
  exact List.pairwise_iff_getElem.mp h i j hi hj hlt

theorem Exact.inside (h : Exact address xs rs) (hnonneg : 0 ≤ address)
    (hlt : ∀ r ∈ rs, r.address < size ∧ r.address + (r.count - 1) * r.align < size) :
    ∀ r ∈ rs, r.Inside size := by
  intro r hr
  obtain ⟨_, _, hresolves⟩ := h.resolves r hr
  exact ⟨hnonneg.trans (h.le r hr), hresolves.one_le_count, hresolves.one_le_align, (hlt r hr).2⟩

theorem cell_iff {a : Int} : r.Cell a ↔ a ∈ unroll r.address r.align r.count.toNat := by
  rw [mem_unroll]
  constructor <;> rintro ⟨k, hk, rfl⟩ <;> exact ⟨k, by omega, rfl⟩

instance ResolvedInstruction.decidableCell (r : ResolvedInstruction) (a : Int) : Decidable (r.Cell a) :=
  decidable_of_iff _ cell_iff.symm

/-- The code of an entry writes its cells, in both forms. -/
theorem indices_initLabels (h : r.Inside size) (hsize : size ≤ 2 ^ 31)
    (hcode : initLabels labels r = some code) (hfuel : r.count ≤ fuel) :
    code.indices fuel = some (unroll r.address r.align r.count.toNat) := by
  obtain ⟨value, -, rfl⟩ := Option.map_eq_some_iff.mp hcode
  have hnonneg := h.nonneg
  have halign := h.one_le_align
  have hcount := h.one_le_count
  have hlast := h.last_lt
  split_ifs with hle
  · have hexact : ∀ a ∈ unroll r.address r.align r.count.toNat, toDouble a = a := by
      intro a ha
      obtain ⟨hlo, hhi⟩ := h.cell_lt (cell_iff.mpr ha)
      exact toDouble_of_exact ⟨by omega, by omega⟩
    rw [InitLabels.indices, List.map_congr_left hexact, List.map_id']
  · -- more than four cells, so the alignment is below the size too
    have hsmall : 4 * r.align ≤ (r.count - 1) * r.align :=
      mul_le_mul_of_nonneg_right (by omega) (by omega)
    have hstop : r.address + r.count * r.align = r.address + (r.count - 1) * r.align + r.align := by ring
    have hcast : ((r.count.toNat - 1 : Nat) : Int) + 1 = r.count := by omega
    have hrounds : r.count.toNat - 1 < fuel := by omega
    have hloop := loopIndices_eq hnonneg halign hrounds (by rw [hcast]; omega)
    rw [hcast, show r.count.toNat - 1 + 1 = r.count.toNat by omega] at hloop
    rw [InitLabels.indices, toDouble_of_exact ⟨by omega, by omega⟩,
      toDouble_of_exact ⟨by omega, by omega⟩, toDouble_of_exact ⟨by omega, by omega⟩, hloop]

end

/-! ## The memory cell -/

section
variable {cell cell' : List Int} {value a : Int} {indices : List Int}

theorem writeCell_length (value : Int) (cell : List Int) (i : Int) :
    (writeCell value cell i).length = cell.length := by
  rw [writeCell]
  split_ifs <;> simp

theorem readCell_writeCell {i : Int} (hlt : i < cell.length) :
    readCell (writeCell value cell i) a = if a = i ∧ 0 ≤ i then some value else readCell cell a := by
  rw [readCell, readCell, writeCell]
  by_cases hi : 0 ≤ i
  · by_cases ha : 0 ≤ a
    · rw [if_pos hi, if_pos ha, if_pos ha, List.getElem?_set]
      by_cases heq : a = i
      · rw [if_pos (by omega), if_pos (by omega), if_pos ⟨heq, hi⟩]
      · rw [if_neg (by omega), if_neg (by tauto)]
    · rw [if_neg ha, if_neg ha, if_neg (by omega)]
  · have hnot : ¬ (a = i ∧ 0 ≤ i) := fun h => hi h.2
    rw [if_neg hi, if_neg hnot]

theorem lt_length_of_readCell (h : readCell cell a = some value) : a < cell.length := by
  rw [readCell] at h
  split_ifs at h with ha
  obtain ⟨hlt, -⟩ := List.getElem?_eq_some_iff.mp h
  omega

theorem foldl_writeCell_length (value : Int) (indices cell : List Int) :
    (indices.foldl (writeCell value) cell).length = cell.length := by
  induction indices generalizing cell with
  | nil => rfl
  | cons i indices ih => rw [List.foldl_cons, ih, writeCell_length]

theorem readCell_foldl (hindices : ∀ i ∈ indices, 0 ≤ i ∧ i < cell.length) :
    readCell (indices.foldl (writeCell value) cell) a = if a ∈ indices then some value
    else readCell cell a := by
  induction indices generalizing cell with
  | nil => simp
  | cons i indices ih =>
      obtain ⟨hi, hlt⟩ := hindices i (by simp)
      have hrest : ∀ j ∈ indices, 0 ≤ j ∧ j < (writeCell value cell i).length := by
        intro j hj
        rw [writeCell_length]
        exact hindices j (List.mem_cons_of_mem _ hj)
      rw [List.foldl_cons, ih hrest, readCell_writeCell hlt]
      by_cases hmem : a ∈ indices
      · rw [if_pos hmem, if_pos (List.mem_cons_of_mem _ hmem)]
      · rw [if_neg hmem]
        by_cases heq : a = i
        · rw [if_pos ⟨heq, hi⟩, if_pos (heq ▸ List.mem_cons_self)]
        · rw [if_neg (by tauto), if_neg (by simp [heq, hmem])]

end

/-! ## The initialisation -/

theorem initLabelsAll_forall₂ {labels : String → Option Int} {codes : List InitLabels}
    (h : initLabelsAll labels rs = some codes) :
    List.Forall₂ (fun r code => initLabels labels r = some code) rs codes := by
  induction rs generalizing codes with
  | nil =>
      cases h
      exact .nil
  | cons r rs ih =>
      rw [initLabelsAll, List.mapM_cons] at h
      obtain ⟨code, hcode, h⟩ := Option.bind_eq_some_iff.mp h
      obtain ⟨rest, hrest, h⟩ := Option.bind_eq_some_iff.mp h
      cases h
      exact .cons hcode (ih hrest)

theorem getElem?_of_forall₂ {α β : Type*} {p : α → β → Prop} {l : List α} {l' : List β}
    (h : List.Forall₂ p l l') {i : Nat} {b : β} (hb : l'[i]? = some b) :
    ∃ a, l[i]? = some a ∧ p a b := by
  induction h generalizing i with
  | nil => cases hb
  | cons hhead htail ih =>
      cases i with
      | zero =>
          cases hb
          exact ⟨_, rfl, hhead⟩
      | succ i => exact ih hb

theorem runInitLabels_length {codes : List InitLabels} {fuel : Nat} {cell cell' : List Int}
    (h : runInitLabels fuel codes cell = some cell') : cell'.length = cell.length := by
  induction codes generalizing cell with
  | nil =>
      cases h
      rfl
  | cons code codes ih =>
      obtain ⟨indices, -, h⟩ := Option.bind_eq_some_iff.mp h
      rw [ih h, foldl_writeCell_length]

theorem runInitLabels_correct {labels : String → Option Int} {codes : List InitLabels}
    {cell : List Int} {size : Nat} (hlength : cell.length = size) (hsize : size ≤ 2 ^ 31)
    (hcodes : List.Forall₂ (fun r code => initLabels labels r = some code) rs codes)
    (hinside : ∀ r ∈ rs, r.Inside size) (hincreasing : rs.Pairwise fun r s => r.stop ≤ s.address) :
    ∃ cell', runInitLabels size codes cell = some cell' ∧
      (∀ a, (∀ r ∈ rs, ¬ r.Cell a) → readCell cell' a = readCell cell a) ∧
      ∀ r ∈ rs, ∀ a, r.Cell a → ∃ value, labels r.label = some value ∧
      readCell cell' a = some value := by
  induction hcodes generalizing cell with
  | nil => exact ⟨cell, rfl, fun _ _ => rfl, by simp⟩
  | @cons r code rs codes hcode hcodes ih =>
      obtain ⟨hfirst, hincreasing⟩ := List.pairwise_cons.mp hincreasing
      have hr : r.Inside size := hinside r (by simp)
      have hindices := indices_initLabels hr (by exact_mod_cast hsize) hcode hr.count_le
      have hlabel : labels r.label = some code.value := by
        obtain ⟨value, hvalue, rfl⟩ := Option.map_eq_some_iff.mp hcode
        rw [hvalue]
        split_ifs <;> rfl
      have hread (a : Int) : readCell ((unroll r.address r.align r.count.toNat).foldl
        (writeCell code.value) cell) a =
          if r.Cell a then some code.value else readCell cell a := by
        have hinside : ∀ i ∈ unroll r.address r.align r.count.toNat, 0 ≤ i ∧ i < cell.length := by
          intro i hi
          rw [hlength]
          exact hr.cell_lt (cell_iff.mpr hi)
        simp only [readCell_foldl hinside, cell_iff]
      have hlength' :=
        (foldl_writeCell_length code.value (unroll r.address r.align r.count.toNat) cell).trans
          hlength
      obtain ⟨cell', hrun, hframe, hstored⟩ :=
        ih hlength' (fun s hs => hinside s (List.mem_cons_of_mem _ hs)) hincreasing
      refine ⟨cell', ?_, fun a ha => ?_, fun s hs a ha => ?_⟩
      · rw [runInitLabels, hindices]
        exact hrun
      · rw [hframe a fun s hs => ha s (List.mem_cons_of_mem _ hs), hread, if_neg (ha r (by simp))]
      · rcases List.mem_cons.mp hs with rfl | hs
        · have hother : ∀ t ∈ rs, ¬ t.Cell a :=
            fun t ht => not_cell_of_stop_le hr (hfirst t ht) (hinside t (by simp [ht])) ha
          exact ⟨code.value, hlabel, by rw [hframe a hother, hread, if_pos ha]⟩
        · exact hstored s hs a ha

/-! ## The table -/

/-- An accepted list gives the table exactly if its layout lies in the memory cell. -/
theorem labelTable_iff {labels : String → Option Int} {codes : List InitLabels} {cell : List Int}
    (hcell : cell.length < 2 ^ 31) (hok : resolveInstructions xs = .ok rs)
    (hcodes : initLabelsAll labels rs = some codes) :
    LabelTable labels xs rs codes cell ↔ Fits cell.length 0 xs := by
  have hresolves := resolveInstructionsFrom_ok hok
  have hcodes := initLabelsAll_forall₂ hcodes
  constructor
  · intro h
    have hexact := exact_of_aligned hresolves h.aligned
    obtain ⟨fuel, cell', hrun, hstored⟩ := h.stored
    have hlt {r : ResolvedInstruction} (hr : r ∈ rs) {a : Int} (ha : r.Cell a) : a < cell.length := by
      obtain ⟨value, -, hread⟩ := hstored r hr a ha
      rw [← runInitLabels_length hrun]
      exact lt_length_of_readCell hread
    rw [hexact.fits_iff]
    intro r hr
    obtain ⟨_, _, hresolves⟩ := hexact.resolves r hr
    have hcount := hresolves.one_le_count
    exact ⟨hlt hr ⟨0, by omega, by simp⟩,
      hlt hr ⟨(r.count - 1).toNat, by omega, by rw [Int.toNat_of_nonneg (by omega)]⟩⟩
  · intro hfits
    have hexact := exact_of_fits hresolves le_rfl (by norm_cast; omega) hfits
    have hinside : ∀ r ∈ rs, r.Inside cell.length := hexact.inside le_rfl (hexact.fits_iff.mp hfits)
    obtain ⟨cell', hrun, -, hstored⟩ := runInitLabels_correct rfl hcell.le hcodes hinside hexact.pairwise
    refine ⟨hexact.pairwise, hexact.aligned, hexact.covers, ⟨_, cell', hrun, hstored⟩, ?_⟩
    intro i j code s hne hcode hs fuel indices hindices a ha
    obtain ⟨r, hr, hrcode⟩ := getElem?_of_forall₂ hcodes hcode
    have hrmem := List.mem_of_getElem? hr
    have hsmem := List.mem_of_getElem? hs
    have hcell : r.Cell a := by
      have hcells :=
        indices_initLabels (hinside r hrmem) (by norm_cast; omega) hrcode (hinside r hrmem).count_le
      have hmax := InitLabels.indices_mono (le_max_left fuel cell.length) hindices
      rw [InitLabels.indices_mono (le_max_right fuel cell.length) hcells] at hmax
      rw [cell_iff, Option.some.inj hmax]
      exact ha
    rcases lt_or_gt_of_ne hne with hlt | hlt
    · have hstop := stop_le_of_lt hexact.pairwise hlt hr hs
      exact not_cell_of_stop_le (hinside r hrmem) hstop (hinside s hsmem) hcell
    · have hstop := stop_le_of_lt hexact.pairwise hlt hs hr
      exact fun hcell' => not_cell_of_stop_le (hinside s hsmem) hstop (hinside r hrmem) hcell' hcell

/-- Both forms of the initialisation, and an entry that is aligned. -/
theorem labelTable_forms :
    LabelTable (fun label => some label.length)
    [{ label := "A", count := 5 }, { label := "BB", align := 4 }]
      [⟨"A", 5, 1, 0⟩, ⟨"BB", 1, 4, 8⟩] [.loop 1 0 1 5, .unrolled 2 [8]] (List.replicate 512 0) := by
  have hok : resolveInstructions [{ label := "A", count := 5 }, { label := "BB", align := 4 }] =
      .ok [⟨"A", 5, 1, 0⟩, ⟨"BB", 1, 4, 8⟩] := by decide +kernel
  refine (labelTable_iff (by rw [List.length_replicate]; decide) hok rfl).mpr ?_
  rw [List.length_replicate]
  refine ⟨?_, ?_, ?_, ?_, trivial⟩ <;> decide +kernel

/-- From 2^53 on the quotient is rounded, and the second entry is placed over the first one. -/
theorem labelTable_overlap : ∃ rs codes,
    resolveInstructions [{ label := "A", address := some (2 ^ 53) }, { label := "B" }] = .ok rs ∧
      initLabelsAll (fun label => some label.length) rs = some codes ∧
      ¬ LabelTable (fun label => some label.length)
      [{ label := "A", address := some (2 ^ 53) }, { label := "B" }] rs codes
        (List.replicate 512 0) := by
  have hok : resolveInstructions [{ label := "A", address := some (2 ^ 53) }, { label := "B" }] =
      .ok [⟨"A", 1, 1, 2 ^ 53⟩, ⟨"B", 1, 1, 2 ^ 53⟩] := by decide +kernel
  refine ⟨_, _, hok, rfl, fun h => ?_⟩
  have hincreasing := List.rel_of_pairwise_cons h.increasing List.mem_cons_self
  exact absurd hincreasing (by decide)

end Mlogv32.Build
