import Mlogv32.Scripts.Lemmas.Reading

/-!
# Lines of the generated programs

Each line is a statement, and the programs are read as the variables that they were generated from.
-/

namespace Mlogv32.Scripts
open Mlogv32.Parser

/-! ## Words -/

theorem blockIds_length : blockIds.length = 260 := by decide +kernel

theorem isWord_of_all {w : List Char} (h : (w ≠ [] && w.all isTokenChar) = true) : IsWord w := by
  rw [Bool.and_eq_true, decide_eq_true_eq, List.all_eq_true] at h
  exact ⟨h.1, h.2⟩

/-- The bytes of a name, which the kernel evaluates faster than its characters. -/
def bytes (s : String) : List Nat := s.toByteArray.data.toList.map UInt8.toNat

/-- An ASCII character of a name is one of its bytes. -/
theorem mem_bytes {s : String} {c : Char} (hc : c ∈ s.toList) {b : Nat}
    (h : (String.utf8EncodeChar c).map UInt8.toNat = [b]) : b ∈ bytes s := by
  have hs : s.toByteArray.data.toList = s.toList.flatMap String.utf8EncodeChar := by
    rw [← String.utf8Encode_toList, List.utf8Encode, List.data_toByteArray]
  rw [bytes, hs]
  have hb : b ∈ (String.utf8EncodeChar c).map UInt8.toNat := by
    rw [h]
    exact List.mem_singleton.mpr rfl
  obtain ⟨x, hx, rfl⟩ := List.mem_map.mp hb
  exact List.mem_map_of_mem (List.mem_flatMap.mpr ⟨c, hc, hx⟩)

/-- A byte above the blanks and `#`, other than `;`. -/
def isWordByte (b : Nat) : Bool := Nat.ble 36 b && b != 59

theorem isWord_of_bytes {s : String} (h : (bytes s ≠ [] && (bytes s).all isWordByte) = true) :
    IsWord s.toList := by
  rw [Bool.and_eq_true, decide_eq_true_eq, List.all_eq_true] at h
  have hbyte {b : Nat} (hb : b ∈ bytes s) : 36 ≤ b ∧ b ≠ 59 := by
    simpa [isWordByte] using h.2 b hb
  refine ⟨fun hnil => h.1 ?_, fun c hc => ?_⟩
  · rw [String.toList_eq_nil_iff.mp hnil]
    rfl
  · simp only [isTokenChar, Bool.and_eq_true, decide_eq_true_eq]
    refine ⟨⟨⟨⟨?_, ?_⟩, ?_⟩, ?_⟩, ?_⟩ <;> rintro rfl
    · exact absurd (hbyte (mem_bytes (b := 10) hc rfl)).1 (by decide)
    · exact absurd (hbyte (mem_bytes (b := 32) hc rfl)).1 (by decide)
    · exact absurd (hbyte (mem_bytes (b := 35) hc rfl)).1 (by decide)
    · exact absurd (hbyte (mem_bytes (b := 9) hc rfl)).1 (by decide)
    · exact (hbyte (mem_bytes (b := 59) hc rfl)).2 rfl

theorem isWord_blockId : ∀ id ∈ blockIds, IsWord id.toList := by
  have hall : blockIds.all (fun id => bytes id ≠ [] && (bytes id).all isWordByte) = true := by
    decide +kernel
  exact fun id hid => isWord_of_bytes (List.all_eq_true.mp hall id hid)

/-- The bytes of a name as one number. -/
def code (s : String) : Nat := (bytes s).foldl (fun n b => n * 256 + b) 0

def distinct : List Nat → Bool
  | [] => true
  | x :: xs => xs.all (!Nat.beq x ·) && distinct xs

theorem nodup_of_distinct {xs : List Nat} (h : distinct xs = true) : xs.Nodup := by
  induction xs with
  | nil => exact List.nodup_nil
  | cons x xs ih =>
      rw [distinct, Bool.and_eq_true, List.all_eq_true] at h
      refine List.nodup_cons.mpr ⟨fun hx => ?_, ih h.2⟩
      have hne := h.1 x hx
      rw [Nat.beq_refl] at hne
      cases hne

theorem blockIds_nodup : blockIds.Nodup := by
  have hcodes : distinct (blockIds.map code) = true := by decide +kernel
  exact List.Nodup.of_map code (nodup_of_distinct hcodes)

theorem setLine_eq (blockId var : String) :
    setLine blockId var = " ".intercalate ["set", blockId, "\"" ++ var ++ "\""] := by
  apply String.toList_inj.mp
  simp [setLine]

theorem setIndex_eq (index : Nat) :
    "set _index " ++ toString index = " ".intercalate ["set", "_index", toString index] := by
  apply String.toList_inj.mp
  simp

theorem drawTriangle_eq {vars : List String} (h : vars ≠ []) :
    drawTriangle vars = " ".intercalate ("draw" :: "triangle" :: vars) := by
  obtain ⟨v, vars, rfl⟩ := List.exists_cons_of_ne_nil h
  apply String.toList_inj.mp
  simp [drawTriangle]

theorem IsName.isWord {name : String} (h : IsName name) : IsWord name.toList := by
  refine ⟨h.ne_nil, fun c hc => ?_⟩
  have hc := h.chars c hc
  rw [isNameChar, Bool.and_eq_true] at hc
  exact hc.1

theorem isWord_quoted {name : String} (h : IsName name) : IsWord ("\"" ++ name ++ "\"").toList := by
  refine ⟨by simp, fun c hc => ?_⟩
  simp only [String.toList_append, List.mem_append] at hc
  rcases hc with (hc | hc) | hc
  · rw [List.mem_singleton.mp hc]
    rfl
  · exact h.isWord.chars c hc
  · rw [List.mem_singleton.mp hc]
    rfl

theorem isWord_toString (n : Nat) : IsWord (toString n).toList := by
  rw [Nat.toString_eq_ofList_toDigits, String.toList_ofList]
  refine ⟨Nat.toDigits_ne_nil, fun c hc => ?_⟩
  obtain ⟨d, hd, rfl⟩ := mem_toDigits (by decide) hc
  have hchar := isNameChar_digitChar d (by omega)
  rw [isNameChar, Bool.and_eq_true] at hchar
  exact hchar.1

/-! ## Lookup processors -/

/-- The statements of a lookup processor. -/
def lookupStatements (index : Nat) (vars : List String) : List (List String) :=
  ["set", "_type", "\"lookup\""] :: ["set", "_index", toString index] ::
    (List.zipWith (fun id var => ["set", id, "\"" ++ var ++ "\""]) blockIds vars ++ [["stop"]])

theorem isStatement_stop : IsStatement ["stop"] := by
  refine ⟨fun w hw => ?_, .inl rfl⟩
  rw [List.mem_singleton.mp hw]
  exact isWord_of_all (by simp [isTokenChar])

theorem isStatement_set {x y : String} (hx : IsWord x.toList) (hy : IsWord y.toList) :
    IsStatement ["set", x, y] := by
  refine ⟨fun w hw => ?_, .inr (by simp)⟩
  simp only [List.mem_cons, List.not_mem_nil, or_false] at hw
  rcases hw with rfl | rfl | rfl
  · exact isWord_of_all (by simp [isTokenChar])
  · exact hx
  · exact hy

theorem instructions_lookupCode (index : Nat) {vars : List String} (h : ∀ var ∈ vars, IsName var) :
    instructions (lookupCode index (List.zipWith setLine blockIds vars)) =
      lookupStatements index vars := by
  have hlines : lookupCode index (List.zipWith setLine blockIds vars) =
      "\n".intercalate ((lookupStatements index vars).map (" ".intercalate ·)) := by
    simp only [lookupCode, lookupStatements, List.map_cons, List.map_append,
      List.map_zipWith, ← setLine_eq, ← setIndex_eq]
    rfl
  rw [hlines]
  refine instructions_intercalate fun ws hws => ?_
  simp only [lookupStatements, List.mem_cons, List.mem_append, List.not_mem_nil, or_false] at hws
  rcases hws with rfl | rfl | hws | rfl
  · exact isStatement_set (isWord_of_all (by simp [isTokenChar])) (isWord_of_all (by simp [isTokenChar]))
  · exact isStatement_set (isWord_of_all (by simp [isTokenChar])) (isWord_toString index)
  · obtain ⟨j, hj⟩ := List.mem_iff_getElem?.mp hws
    obtain ⟨id, var, hid, hvar, rfl⟩ := List.getElem?_zipWith_eq_some.mp hj
    exact isStatement_set (isWord_blockId id (List.mem_of_getElem? hid))
      (isWord_quoted (h var (List.mem_of_getElem? hvar)))
  · exact isStatement_stop

/-- The last value of each variable is the one that the table has. -/
theorem lookupTable_sets {ids : List String} (hids : ids.Nodup) (vars : List String)
    (table : String → Option String) :
    ∃ table', lookupTable (List.zipWith (fun id var => ["set", id, "\"" ++ var ++ "\""]) ids vars ++
      [["stop"]]) table =
        some table' ∧
      (∀ (j : Nat) id var, ids[j]? = some id → vars[j]? = some var →
        table' id = some ("\"" ++ var ++ "\"")) ∧
      ∀ x ∉ ids, table' x = table x := by
  induction ids generalizing vars table with
  | nil => exact ⟨table, rfl, by simp, fun _ _ => rfl⟩
  | cons id ids ih =>
      cases vars with
      | nil => exact ⟨table, rfl, by simp, fun _ _ => rfl⟩
      | cons var vars =>
          obtain ⟨hid, hids⟩ := List.nodup_cons.mp hids
          obtain ⟨table', hrun, hset, hother⟩ :=
            ih hids vars (Function.update table id (some ("\"" ++ var ++ "\"")))
          refine ⟨table', hrun, fun j id' var' hid' hvar' => ?_, fun x hx => ?_⟩
          · cases j with
            | zero =>
                cases hid'
                cases hvar'
                rw [hother id hid, Function.update_self]
            | succ j => exact hset j id' var' hid' hvar'
          · rw [List.mem_cons, not_or] at hx
            rw [hother x hx.2, Function.update_of_ne hx.1]

/-- Lookup processor `index` has this number, and maps block number `j` to its `j`-th variable. -/
theorem lookupTable_lookupCode (index : Nat) {vars : List String} (h : ∀ var ∈ vars, IsName var) :
    ∃ table, lookupTable (instructions (lookupCode index (List.zipWith setLine blockIds vars)))
      (fun _ => none) = some table ∧
      table "_index" = some (toString index) ∧
      ∀ (j : Nat) id var, blockIds[j]? = some id → vars[j]? = some var →
      table id = some ("\"" ++ var ++ "\"") := by
  have hindex : "_index" ∉ blockIds := by decide +kernel
  rw [instructions_lookupCode index h, lookupStatements, lookupTable, lookupTable]
  obtain ⟨table, hrun, hset, hother⟩ := lookupTable_sets blockIds_nodup vars _
  exact ⟨table, hrun, (hother "_index" hindex).trans (Function.update_self ..), hset⟩

/-! ## The RAM program -/

theorem isStatement_draw {vars : List String} (h : ∀ var ∈ vars, IsName var) :
    IsStatement ("draw" :: "triangle" :: vars) := by
  refine ⟨fun w hw => ?_, .inr (by simp)⟩
  simp only [List.mem_cons] at hw
  rcases hw with rfl | rfl | hw
  · exact isWord_of_all (by simp [isTokenChar])
  · exact isWord_of_all (by simp [isTokenChar])
  · exact (h w hw).isWord

theorem drawnVariables_draw {lines : List (List String)} (h : ∀ line ∈ lines, line.length = 6) :
    drawnVariables (lines.map ("draw" :: "triangle" :: ·)) = some lines.flatten := by
  induction lines with
  | nil => rfl
  | cons line lines ih =>
      have hlength := h line (by simp)
      have hrest := ih fun line hline => h line (List.mem_cons_of_mem _ hline)
      rcases line with _ | ⟨x, _ | ⟨y, _ | ⟨x2, _ | ⟨y2, _ | ⟨x3, _ | ⟨y3, _ | ⟨z, line⟩⟩⟩⟩⟩⟩⟩
      case cons.cons.cons.cons.cons.cons.cons.nil =>
          rw [List.map_cons, drawnVariables, hrest]
          rfl
      all_goals simp at hlength

theorem drawnVariables_ramCode {lines : List (List String)}
    (h : ∀ line ∈ lines, line.length = 6 ∧ ∀ var ∈ line, IsName var) :
    drawnVariables (instructions ("\n".intercalate (["stop"] ++ lines.map drawTriangle))) =
      some lines.flatten := by
  have hlines : "\n".intercalate (["stop"] ++ lines.map drawTriangle) =
      "\n".intercalate ((["stop"] :: lines.map ("draw" :: "triangle" :: ·)).map
        (" ".intercalate ·)) := by
    have hdraw : lines.map drawTriangle = (lines.map ("draw" :: "triangle" :: ·)).map
        (" ".intercalate ·) := by
      rw [List.map_map]
      refine List.map_congr_left fun line hline => drawTriangle_eq ?_
      rintro rfl
      exact absurd (h _ hline).1 (by decide)
    rw [hdraw]
    rfl
  rw [hlines, instructions_intercalate]
  · rw [drawnVariables, drawnVariables_draw fun line hline => (h line hline).1]
  · intro ws hws
    rcases List.mem_cons.mp hws with rfl | hws
    · exact isStatement_stop
    · obtain ⟨line, hline, rfl⟩ := List.mem_map.mp hws
      exact isStatement_draw (h line hline).2

end Mlogv32.Scripts
