import Mlogv32.Logic.Chunks
import Mlogv32.Scripts.Lemmas.Lines

/-!
# The generated RAM and lookup processors

For every format and every size up to the number of its names, the lookup processors and the RAM
program agree on the order of the variables. For a larger size there is no program.
-/

namespace Mlogv32.Scripts
open Mlogv32.Parser Python Logic

/-! ## The lists of the generator -/

/-- The lists after the names `xs`, in chunks of six and of 260 names. The last chunks are not full. -/
structure Generator.Holds (g : Generator) (xs : List String) (lines tables : List (List String))
    (vars : List String) :
    Prop where
  chunkedLines : Chunked 6 xs lines g.ramProcLine
  line_lt : g.ramProcLine.length < 6
  ramProc : g.ramProc = lines.map drawTriangle
  chunkedTables : Chunked 260 xs tables vars
  vars_lt : vars.length < 260
  lookupProc : g.lookupProc = List.zipWith setLine blockIds vars
  lookupProcs : g.lookupProcs = tables.mapIdx fun k vars =>
    lookupCode k (List.zipWith setLine blockIds vars)

theorem zipWith_concat {α β γ : Type*} (f : α → β → γ) {l : List α} {l' : List β} {a : α}
    (h : l[l'.length]? = some a) (b : β) :
    List.zipWith f l (l' ++ [b]) = List.zipWith f l l' ++ [f a b] := by
  induction l' generalizing l with
  | nil =>
      cases l with
      | nil => cases h
      | cons x l =>
          cases h
          simp
  | cons y l' ih =>
      cases l with
      | nil => cases h
      | cons x l =>
          rw [List.cons_append, List.zipWith_cons_cons, List.zipWith_cons_cons, ih h, List.cons_append]

namespace Generator

section
variable {g : Generator} {xs : List String} {lines tables : List (List String)}
  {vars : List String} {n : Nat} (var : String)

theorem Holds.length_ramProc (h : g.Holds xs lines tables vars) :
    xs.length = 6 * g.ramProc.length + g.ramProcLine.length := by
  rw [h.ramProc, List.length_map]
  exact h.chunkedLines.length

theorem Holds.length_lookupProc (h : g.Holds xs lines tables vars) :
    g.lookupProc.length = vars.length := by
  have hlt := h.vars_lt
  rw [h.lookupProc, List.length_zipWith, blockIds_length]
  omega

theorem Holds.length_lookupProcs (h : g.Holds xs lines tables vars) :
    g.lookupProcs.length = tables.length := by
  rw [h.lookupProcs, List.length_mapIdx]

/-- The RAM part of a round that is not the last one. -/
theorem addRam_more (h : g.Holds xs lines tables vars) (hlt : xs.length + 1 < n) :
    ∃ g' lines', g.addRam n var = (false, g') ∧ Chunked 6 (xs ++ [var]) lines' g'.ramProcLine ∧
      g'.ramProcLine.length < 6 ∧ g'.ramProc = lines'.map drawTriangle ∧ g'.lookupProc = g.lookupProc ∧
      g'.lookupProcs = g.lookupProcs := by
  have hlength := h.length_ramProc
  have hpush := h.chunkedLines.push h.line_lt var
  have hspace : (n : Int) - g.ramProc.length * 6 ≠ (g.ramProcLine ++ [var]).length := by
    rw [List.length_append, List.length_singleton]
    omega
  rw [addRam]
  simp only [if_neg hspace]
  split
  · rename_i hfull
    refine ⟨_, _, rfl, hpush.flush hfull, by simp, ?_, rfl, rfl⟩
    rw [h.ramProc, List.map_append]
    rfl
  · rename_i hfull
    have hlt : (g.ramProcLine ++ [var]).length < 6 := lt_of_le_of_ne hpush.rest_le hfull
    exact ⟨_, _, rfl, hpush, hlt, h.ramProc, rfl, rfl⟩

/-- The RAM part of the last round: the last line is filled with its last variable. -/
theorem addRam_last (h : g.Holds xs lines tables vars) (hn : xs.length + 1 = n) :
    g.addRam n var = (true, { g with
      ramProc :=
        (lines ++ [g.ramProcLine ++ [var] ++
          List.replicate (6 - (g.ramProcLine ++ [var]).length) var]).map drawTriangle
      ramProcLine := g.ramProcLine ++ [var] }) := by
  have hlength := h.length_ramProc
  have hspace : (n : Int) - g.ramProc.length * 6 = (g.ramProcLine ++ [var]).length := by
    rw [List.length_append, List.length_singleton]
    omega
  have hpos : (n : Int) - g.ramProc.length * 6 > 0 := by
    rw [hspace, List.length_append, List.length_singleton]
    omega
  rw [addRam]
  simp only [if_pos hspace, if_pos hpos, List.map_append, ← h.ramProc]
  rfl

theorem addLookup_eq (h : g.Holds xs lines tables vars) (done : Bool) (g' : Generator)
    (hproc : g'.lookupProc = g.lookupProc) (hprocs : g'.lookupProcs = g.lookupProcs) :
    g'.addLookup done var = .ok (if vars.length + 1 = 260 ∨ done then
        { g' with
          lookupProcs := (tables ++ [vars ++ [var]]).mapIdx fun k vars =>
            lookupCode k (List.zipWith setLine blockIds vars)
          lookupProc := [] }
      else { g' with lookupProc := List.zipWith setLine blockIds (vars ++ [var]) }) := by
  have hlt : vars.length < blockIds.length := blockIds_length ▸ h.vars_lt
  have hid : blockIds[vars.length]? = some blockIds[vars.length] := List.getElem?_eq_getElem hlt
  have hconcat := zipWith_concat setLine hid var
  have hlength : (g.lookupProc ++ [setLine blockIds[vars.length] var]).length = vars.length + 1 := by
    rw [List.length_append, h.length_lookupProc, List.length_singleton]
  rw [addLookup, hproc, h.length_lookupProc, hid]
  simp only [hlength, blockIds_length, hprocs, h.length_lookupProcs]
  rw [List.mapIdx_concat, ← h.lookupProcs, hconcat, ← h.lookupProc]
  split <;> rfl

theorem round_more (h : g.Holds xs lines tables vars) (hlt : xs.length + 1 < n) :
    ∃ g' lines' tables' vars', (g.addRam n var).1 = false ∧
    (g.addRam n var).2.addLookup false var = .ok g' ∧
      g'.Holds (xs ++ [var]) lines' tables' vars' := by
  obtain ⟨g1, lines', hram, hlines, hline, hramProc, hproc, hprocs⟩ := addRam_more var h hlt
  have hpush := h.chunkedTables.push h.vars_lt var
  rw [hram, addLookup_eq var h false g1 hproc hprocs]
  simp only [Bool.false_eq_true, or_false]
  by_cases hfull : vars.length + 1 = 260
  · rw [if_pos hfull]
    refine ⟨_, lines', tables ++ [vars ++ [var]], [], trivial, rfl, hlines, hline, hramProc,
      ?_, by simp, by simp, rfl⟩
    exact hpush.flush (by simpa using hfull)
  · rw [if_neg hfull]
    refine ⟨_, lines', tables, vars ++ [var], trivial, rfl, hlines, hline, hramProc, hpush, ?_, rfl,
      hprocs.trans h.lookupProcs⟩
    exact lt_of_le_of_ne hpush.rest_le (by simpa using hfull)

/-- The two outputs for the names `names`. -/
structure Outputs (names procs : List String) (ram : String) (lines tables : List (List String))
    (line vars : List String) (last : String) : Prop where
  chunkedLines : Chunked 6 names lines line
  mem_line : last ∈ line
  ram : ram = "\n".intercalate
    (["stop"] ++ (lines ++ [line ++ List.replicate (6 - line.length) last]).map drawTriangle)
  chunkedTables : Chunked 260 names tables vars
  procs : procs = (tables ++ [vars]).mapIdx fun k vars =>
    lookupCode k (List.zipWith setLine blockIds vars)

theorem round_last (h : g.Holds xs lines tables vars) (hn : xs.length + 1 = n) :
    ∃ g', (g.addRam n var).1 = true ∧ (g.addRam n var).2.addLookup true var = .ok g' ∧
      Outputs (xs ++ [var]) g'.lookupProcs ("\n".intercalate (["stop"] ++ g'.ramProc)) lines tables
        (g.ramProcLine ++ [var]) (vars ++ [var]) var := by
  have hram := addRam_last var h hn
  rw [addLookup_eq var h true (g.addRam n var).2 (by rw [hram]) (by rw [hram]), if_pos (.inr rfl)]
  exact ⟨_, congrArg Prod.fst hram, rfl, h.chunkedLines.push h.line_lt var, by simp, by rw [hram],
    h.chunkedTables.push h.vars_lt var, rfl⟩

end

/-! ## The loop -/

/-- The loop yields the rest of the names and ends after number `n - 1`. -/
theorem loop_eq {fmt : VariableFormat} {n : Nat} (names : List String)
    (hnames : ∀ i < n, fmt.iterVariables i = names[i]?) (hlen : names.length = n) {i : Nat}
    (hi : i < n) {g : Generator} {lines tables : List (List String)} {vars : List String}
    (h : g.Holds (names.take i) lines tables vars) {fuel : Nat} (hfuel : n - i ≤ fuel) :
    ∃ procs ram lines tables line vars last, loop n fmt fuel i g = some (.ok (procs, ram)) ∧
      Outputs names procs ram lines tables line vars last := by
  induction fuel generalizing i g lines tables vars with
  | zero => omega
  | succ fuel ih =>
      have hget : names[i]? = some names[i] := List.getElem?_eq_getElem (hlen ▸ hi)
      have htake : names.take i ++ [names[i]] = names.take (i + 1) :=
        List.take_append_getElem (hlen ▸ hi)
      have hlength : (names.take i).length = i := by rw [List.length_take]; omega
      rw [loop, hnames i hi, hget]
      by_cases hlast : i + 1 = n
      · obtain ⟨g', hdone, hok, hout⟩ := round_last (n := n) names[i] h (by omega)
        rw [htake, List.take_of_length_le (by omega)] at hout
        simp only [hdone, hok]
        exact ⟨_, _, _, _, _, _, _, rfl, hout⟩
      · obtain ⟨g', lines', tables', vars', hdone, hok, hholds⟩ :=
          round_more (n := n) names[i] h (by omega)
        rw [htake] at hholds
        simp only [hdone, hok]
        exact ih (by omega) hholds (by omega)

/-- The names run out before number `n - 1`. -/
theorem loop_runsOut {fmt : VariableFormat} {n : Nat} {k : Nat} (hk : k < n)
    (hnone : fmt.iterVariables k = none) (names : List String)
    (hnames : ∀ i < k, fmt.iterVariables i = names[i]?) (hlen : names.length = k) {i : Nat}
    (hi : i ≤ k) {g : Generator} {lines tables : List (List String)} {vars : List String}
    (h : g.Holds (names.take i) lines tables vars) {fuel : Nat} (hfuel : k - i < fuel) :
    loop n fmt fuel i g = some (.error (.valueError "Ran out of variable names!")) := by
  induction fuel generalizing i g lines tables vars with
  | zero => omega
  | succ fuel ih =>
      rcases hi.eq_or_lt with rfl | hi
      · rw [loop, hnone]
      · have hget : names[i]? = some names[i] := List.getElem?_eq_getElem (hlen ▸ hi)
        have htake : names.take i ++ [names[i]] = names.take (i + 1) :=
          List.take_append_getElem (hlen ▸ hi)
        have hlength : (names.take i).length = i := by rw [List.length_take]; omega
        obtain ⟨g', lines', tables', vars', hdone, hok, hholds⟩ :=
          round_more (n := n) names[i] h (by omega)
        rw [htake] at hholds
        rw [loop, hnames i hi, hget]
        simp only [hdone, hok]
        exact ih (by omega) hholds (by omega)

end Generator

theorem holds_nil : ({} : Generator).Holds [] [] [] [] :=
  ⟨.nil 6, by simp, rfl, .nil 260, by simp, by simp, rfl⟩

theorem VariableFormat.Generates.names {fmt : VariableFormat} {n : Nat} (h : fmt.Generates n) :
    ∃ names : List String, names.length = n ∧ ∀ i < n, fmt.iterVariables i = names[i]? := by
  refine ⟨(List.range n).map fun i => (fmt.iterVariables i).getD "", by simp, fun i hi => ?_⟩
  obtain ⟨name, hname⟩ := Option.isSome_iff_exists.mp (h i hi)
  simp [hi, hname]

/-! ## The programs -/

/-- The lookup processors and the RAM program for `n` variables, which are in the order of the
format. -/
structure Generated (fmt : VariableFormat) (n : Nat) (procs : List String) (ram : String) : Prop where
  lookup : ∀ i < n, ∃ code table id name, procs[i / 260]? = some code ∧
    lookupTable (instructions code) (fun _ => none) = some table ∧
    table "_index" = some (toString (i / 260)) ∧
    blockIds[i % 260]? = some id ∧ fmt.iterVariables i = some name ∧
    table id = some ("\"" ++ name ++ "\"")
  ram : ∃ vars, drawnVariables (instructions ram) = some vars ∧ vars.eraseDups.length = n ∧
    ∀ i < n, vars.eraseDups[i]? = fmt.iterVariables i
  distinct : ∀ i < n, ∀ j < n, fmt.iterVariables i = fmt.iterVariables j → i = j

theorem eraseDups_append_replicate {names : List String} (hnodup : names.Nodup) {var : String}
    (hvar : var ∈ names) (k : Nat) :
    (names ++ List.replicate k var).eraseDups = names := by
  have hself : names.eraseDups = names := by
    clear hvar
    induction names with
    | nil => rfl
    | cons x names ih =>
        obtain ⟨hx, hnodup⟩ := List.nodup_cons.mp hnodup
        have hfilter : names.filter (fun y => !y == x) = names := by
          rw [List.filter_eq_self]
          intro y hy
          simpa using fun heq : y = x => hx (heq ▸ hy)
        rw [List.eraseDups_cons, hfilter, ih hnodup]
  have hnone : (List.replicate k var).removeAll names = [] := by
    rw [List.removeAll, List.filter_eq_nil_iff]
    intro x hx
    simp [List.eq_of_mem_replicate hx, hvar]
  rw [List.eraseDups_append, hnone, hself, List.eraseDups_nil, List.append_nil]

namespace Generator.Outputs

variable {fmt : VariableFormat} {names procs : List String} {ram : String}
  {lines tables : List (List String)}
  {line vars : List String} {last : String}

theorem lookup (h : Outputs names procs ram lines tables line vars last)
    (hnames : ∀ name ∈ names, IsName name) {i : Nat} {name : String} (hi : names[i]? = some name) :
    ∃ code table id, procs[i / 260]? = some code ∧ lookupTable (instructions code) (fun _ => none) =
      some table ∧
      table "_index" = some (toString (i / 260)) ∧ blockIds[i % 260]? = some id ∧
      table id = some ("\"" ++ name ++ "\"") := by
  have hchunk := h.chunkedTables.getElem? (by decide) i
  rw [hi] at hchunk
  obtain ⟨chunk, hchunk, hname⟩ := Option.bind_eq_some_iff.mp hchunk
  have hmem : ∀ var ∈ chunk, IsName var := by
    intro var hvar
    refine hnames var ?_
    rw [← h.chunkedTables.flatten]
    rcases List.mem_append.mp (List.mem_of_getElem? hchunk) with hin | hin
    · exact List.mem_append_left _ (List.mem_flatten_of_mem hin hvar)
    · exact List.mem_append_right _ (List.mem_singleton.mp hin ▸ hvar)
  have hid : i % 260 < blockIds.length := by
    rw [blockIds_length]
    exact Nat.mod_lt i (by decide)
  obtain ⟨table, hrun, hindex, hset⟩ := lookupTable_lookupCode (i / 260) hmem
  refine ⟨_, table, blockIds[i % 260], ?_, hrun, hindex, List.getElem?_eq_getElem hid,
    hset _ _ _ (List.getElem?_eq_getElem hid) hname⟩
  rw [h.procs, List.getElem?_mapIdx, hchunk]
  rfl

theorem drawn (h : Outputs names procs ram lines tables line vars last)
    (hnames : ∀ name ∈ names, IsName name) :
    drawnVariables (instructions ram) = some (names ++ List.replicate (6 - line.length) last) := by
  have hrest := h.chunkedLines.rest_le
  have hflatten := h.chunkedLines.flatten
  have hin {l : List String} (hl : l ∈ lines ++ [line]) {var : String}
      (hvar : var ∈ l) : IsName var := by
    refine hnames var ?_
    rw [← hflatten]
    rcases List.mem_append.mp hl with hl | hl
    · exact List.mem_append_left _ (List.mem_flatten_of_mem hl hvar)
    · exact List.mem_append_right _ (List.mem_singleton.mp hl ▸ hvar)
  rw [h.ram, drawnVariables_ramCode]
  · simp [← hflatten]
  · intro l hl
    rcases List.mem_append.mp hl with hl | hl
    · exact ⟨h.chunkedLines.full l hl, fun var hvar => hin (List.mem_append_left _ hl) hvar⟩
    · rw [List.mem_singleton.mp hl]
      refine ⟨by simp; omega, fun var hvar => ?_⟩
      rcases List.mem_append.mp hvar with hvar | hvar
      · exact hin (by simp) hvar
      · rw [List.eq_of_mem_replicate hvar]
        exact hin (by simp) h.mem_line

theorem generated (h : Outputs names procs ram lines tables line vars last)
    (hiter : ∀ i < names.length, fmt.iterVariables i = names[i]?) :
    Generated fmt names.length procs ram := by
  have hname {i : Nat} (hi : i < names.length) : fmt.iterVariables i = some names[i] := by
    rw [hiter i hi, List.getElem?_eq_getElem hi]
  have hnames : ∀ name ∈ names, IsName name := by
    intro name hmem
    obtain ⟨i, hi, rfl⟩ := List.mem_iff_getElem.mp hmem
    exact isName_iterVariables (hname hi)
  have hdistinct : ∀ i < names.length, ∀ j < names.length, fmt.iterVariables i =
      fmt.iterVariables j → i = j :=
    fun i hi j hj heq => iterVariables_inj (hname hi) (heq ▸ hname hi)
  have hnodup : names.Nodup := by
    rw [List.nodup_iff_getElem?_ne_getElem?]
    intro i j hij hj heq
    rw [← hiter i (by omega), ← hiter j hj] at heq
    exact absurd (hdistinct i (by omega) j hj heq) (by omega)
  have hlast : last ∈ names := by
    rw [← h.chunkedLines.flatten]
    exact List.mem_append_right _ h.mem_line
  refine ⟨fun i hi => ?_, ⟨_, h.drawn hnames, ?_, fun i hi => ?_⟩, hdistinct⟩
  · obtain ⟨code, table, id, hcode, hrun, hindex, hid, htable⟩ :=
      h.lookup hnames (List.getElem?_eq_getElem hi)
    exact ⟨code, table, id, names[i], hcode, hrun, hindex, hid, hname hi, htable⟩
  · rw [eraseDups_append_replicate hnodup hlast]
  · rw [eraseDups_append_replicate hnodup hlast, hiter i hi]

end Generator.Outputs

/-- A size that the format has names for gives the programs, and a larger one the error. -/
theorem generateCode_correct (fmt : VariableFormat) (n : Nat) (hn : 1 ≤ n) :
    (fmt.Generates n → ∀ fuel ≥ n, ∃ procs ram, generateCode fuel n fmt = some (.ok (procs, ram)) ∧
      Generated fmt n procs ram) ∧
      (¬ fmt.Generates n →
        ∀ fuel ≥ n, generateCode fuel n fmt =
          some (.error (.valueError "Ran out of variable names!"))) := by
  constructor
  · intro h fuel hfuel
    obtain ⟨names, hlen, hnames⟩ := h.names
    have hstart : Generator.Holds {} (names.take 0) [] [] [] := holds_nil
    have hfuel' : n - 0 ≤ fuel := hfuel
    obtain ⟨procs, ram, lines, tables, line, vars, last, hrun, hout⟩ :=
      Generator.loop_eq names hnames hlen hn hstart hfuel'
    refine ⟨procs, ram, hrun, ?_⟩
    subst hlen
    exact hout.generated hnames
  · intro h fuel hfuel
    obtain ⟨k, hk, hnone, hmin⟩ : ∃ k < n, fmt.iterVariables k = none ∧ fmt.Generates k := by
      have hex : ∃ k, k < n ∧ fmt.iterVariables k = none := by
        simpa [VariableFormat.Generates] using h
      obtain ⟨hk, hnone⟩ := Nat.find_spec hex
      refine ⟨Nat.find hex, hk, hnone, fun i hi => Option.isSome_iff_ne_none.mpr fun hi' => ?_⟩
      exact Nat.find_min hex hi ⟨hi.trans hk, hi'⟩
    obtain ⟨names, hlen, hnames⟩ := hmin.names
    exact Generator.loop_runsOut hk hnone names hnames hlen (Nat.zero_le k)
      (holds_nil : Generator.Holds {} (names.take 0) [] [] []) (by omega)

/-- The second chunks begin with variables 6 and 260. `min` ends with name 6083. -/
theorem generateCode_correct_boundaries :
    (∃ procs ram, generateCode 261 261 .dec = some (.ok (procs, ram)) ∧ Generated .dec 261 procs ram) ∧
      generateCode 6085 6085 .min = some (.error (.valueError "Ran out of variable names!")) :=
  ⟨(generateCode_correct .dec 261 (by decide)).1 (dec_generates 261) 261 le_rfl,
    (generateCode_correct .min 6085 (by decide)).2 (by rw [min_generates]; decide) 6085 le_rfl⟩

end Mlogv32.Scripts
