import Mlogv32.Logic.Chunks

/-!
# Terminals

A terminal that wraps its text after a number of columns, and where one character ends a line. A
line that is full ends at once. The screen shows the line that is written to, and the lines above
it.
-/

namespace Mlogv32.Logic

variable {α : Type*} {width : Nat}

structure Terminal (α : Type*) (width : Nat) where
  /-- The lines that have ended, the last one first. -/
  lines : List (List α)
  current : List α
  lines_le : ∀ line ∈ lines, line.length ≤ width
  current_lt : current.length < width

namespace Terminal

def empty (α : Type*) (h : 0 < width) : Terminal α width := ⟨[], [], by simp, h⟩

/-- The current line ends. -/
def endLine (t : Terminal α width) (line : List α) (h : line.length ≤ width) : Terminal α width where
  lines := line :: t.lines
  current := []
  lines_le := List.forall_mem_cons.mpr ⟨h, t.lines_le⟩
  current_lt := Nat.zero_lt_of_lt t.current_lt

/-- A character is received. -/
def put [DecidableEq α] (lf : α) (t : Terminal α width) (c : α) : Terminal α width :=
  if c = lf then t.endLine t.current t.current_lt.le
  else if h : (t.current ++ [c]).length < width then ⟨t.lines, t.current ++ [c], t.lines_le, h⟩
  else t.endLine (t.current ++ [c]) (by rw [List.length_append]; exact t.current_lt)

/-- The rows from the bottom up. -/
def rows (t : Terminal α width) : List (List α) := t.current :: t.lines

/-- The character in a column of a row of a screen. -/
def cell? (height : Nat) (t : Terminal α width) (row col : Nat) : Option α :=
  if row < height then t.rows[row]?.bind (·[col]?) else none

/-! ## A buffer of the text -/

/-- The text from the first line on, with every ended line filled up to the width. -/
def text (lf : α) (t : Terminal α width) : List α :=
  (t.lines.reverse.map (List.rightpad width lf)).flatten ++ t.current

variable (lf : α) (t : Terminal α width)

theorem chunked_text : Chunked width (t.text lf) (t.lines.reverse.map (List.rightpad width lf))
    t.current where
  flatten := rfl
  full := by
    intro chunk hchunk
    obtain ⟨line, hline, rfl⟩ := List.mem_map.mp hchunk
    have hle := t.lines_le line (List.mem_reverse.mp hline)
    rw [List.rightpad, List.length_append, List.length_replicate]
    omega
  rest_le := t.current_lt.le

theorem text_length : (t.text lf).length = width * t.lines.length + t.current.length := by
  rw [(t.chunked_text lf).length, List.length_map, List.length_reverse]

theorem text_endLine (line : List α) (h : line.length ≤ width) :
    (t.endLine line h).text lf = (t.lines.reverse.map (List.rightpad width lf)).flatten ++
      List.rightpad width lf line := by
  simp [text, endLine]

theorem text_put_lf [DecidableEq α] :
    (t.put lf lf).text lf = t.text lf ++ List.replicate (width - t.current.length) lf := by
  rw [put, if_pos rfl, text_endLine, text, List.rightpad, List.append_assoc]

theorem text_put [DecidableEq α] {c : α} (hc : c ≠ lf) : (t.put lf c).text lf = t.text lf ++ [c] := by
  rw [put, if_neg hc]
  split_ifs with h
  · rw [text, text, List.append_assoc]
  · have hfull : (t.current ++ [c]).length = width := by
      have hlt := t.current_lt
      rw [List.length_append, List.length_singleton] at h ⊢
      omega
    rw [text_endLine, List.rightpad, hfull, Nat.sub_self, List.replicate_zero,
      List.append_nil, text, List.append_assoc]

theorem getElem?_text {row col : Nat} (hrow : row ≤ t.lines.length) (hcol : col < width) {c : α}
    (hc : c ≠ lf) :
    (t.text lf)[width * (t.lines.length - row) + col]? = some c ↔
    t.rows[row]?.bind (·[col]?) = some c := by
  have hchunk :=
    (t.chunked_text lf).getElem? (Nat.zero_lt_of_lt hcol) (width * (t.lines.length - row) + col)
  rw [Nat.mul_add_div (Nat.zero_lt_of_lt hcol), Nat.div_eq_of_lt hcol, Nat.add_zero, Nat.mul_add_mod,
    Nat.mod_eq_of_lt hcol] at hchunk
  rw [← hchunk]
  cases row with
  | zero =>
      rw [List.getElem?_append_right (by simp)]
      simp [rows]
  | succ row =>
      have hlt : row < t.lines.length := hrow
      have hreverse : t.lines.reverse[t.lines.length - (row + 1)]? = some t.lines[row] := by
        rw [List.getElem?_reverse (by omega), List.getElem?_eq_some_iff]
        exact ⟨by omega, getElem_congr_idx (by omega)⟩
      rw [List.getElem?_append_left (by rw [List.length_map, List.length_reverse]; omega),
        List.getElem?_map, hreverse]
      simp only [rows, List.getElem?_cons_succ, List.getElem?_eq_getElem hlt, Option.map_some,
        Option.bind_some, List.rightpad]
      by_cases hin : col < t.lines[row].length
      · rw [List.getElem?_append_left hin]
      · rw [List.getElem?_append_right (by omega), List.getElem?_eq_none (l := t.lines[row]) (by omega),
          List.getElem?_replicate]
        split_ifs <;> simp [hc.symm]

theorem col_lt {row col : Nat} {c : α} (h : t.rows[row]?.bind (·[col]?) = some c) :
    row ≤ t.lines.length ∧ col < width := by
  obtain ⟨line, hline, hcol⟩ := Option.bind_eq_some_iff.mp h
  obtain ⟨hrow, -⟩ := List.getElem?_eq_some_iff.mp hline
  obtain ⟨hlt, -⟩ := List.getElem?_eq_some_iff.mp hcol
  refine ⟨Nat.le_of_lt_succ hrow, ?_⟩
  rcases List.mem_cons.mp (List.mem_of_getElem? hline) with rfl | hmem
  · exact hlt.trans t.current_lt
  · exact hlt.trans_le (t.lines_le line hmem)

section
variable [DecidableEq α]

/-- The characters `cs` are received. -/
def write (cs : List α) : Terminal α width := cs.foldl (put lf) t

@[simp] theorem write_nil : t.write lf [] = t := rfl

@[simp] theorem write_cons (c : α) (cs : List α) : t.write lf (c :: cs) = (t.put lf c).write lf cs := rfl

theorem write_append (cs cs' : List α) : t.write lf (cs ++ cs') = (t.write lf cs).write lf cs' :=
  List.foldl_append

/-- A line feed ends a line, and so does the last column. -/
theorem put_length (c : α) :
    (c = lf ∨ width ≤ t.current.length + 1) ∧ (t.put lf c).lines.length = t.lines.length + 1 ∧
    (t.put lf c).current.length = 0 ∨
      ¬ (c = lf ∨ width ≤ t.current.length + 1) ∧ (t.put lf c).lines.length = t.lines.length ∧
        (t.put lf c).current.length = t.current.length + 1 := by
  rw [put]
  split_ifs with hc h
  · exact .inl ⟨.inl hc, rfl, rfl⟩
  · rw [List.length_append, List.length_singleton] at h
    exact .inr ⟨by simpa [hc] using h, rfl, List.length_append⟩
  · rw [List.length_append, List.length_singleton] at h
    exact .inl ⟨.inr (not_lt.mp h), rfl, rfl⟩

theorem text_prefix_put (c : α) : t.text lf <+: (t.put lf c).text lf := by
  by_cases hc : c = lf
  · rw [hc, text_put_lf]
    exact List.prefix_append _ _
  · rw [text_put lf t hc]
    exact List.prefix_append _ _

theorem text_prefix_write (cs : List α) : t.text lf <+: (t.write lf cs).text lf := by
  induction cs generalizing t with
  | nil => exact List.prefix_refl _
  | cons c cs ih => exact (t.text_prefix_put lf c).trans (ih (t.put lf c))

end

/-- What a cell of the screen shows, by its index in the text. -/
theorem cell?_eq_some_iff {height row col : Nat} {c : α} (hc : c ≠ lf) :
    t.cell? height row col = some c ↔
      row < height ∧ row ≤ t.lines.length ∧ col < width ∧
      (t.text lf)[width * (t.lines.length - row) + col]? = some c := by
  rw [cell?]
  constructor
  · intro h
    split_ifs at h with hheight
    obtain ⟨hrow, hcol⟩ := t.col_lt h
    exact ⟨hheight, hrow, hcol, (t.getElem?_text lf hrow hcol hc).mpr h⟩
  · rintro ⟨hheight, hrow, hcol, h⟩
    rw [if_pos hheight]
    exact (t.getElem?_text lf hrow hcol hc).mp h

end Terminal

end Mlogv32.Logic
