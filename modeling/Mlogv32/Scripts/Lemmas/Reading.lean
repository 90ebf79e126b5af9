import Mlogv32.Parser.Lemmas.Text
import Mlogv32.Scripts.Lemmas.Names

/-!
# Reading a generated program

What a processor makes of the text of a program: its statements, the variables that a lookup
processor has set when it stops, and the variables that a RAM program names.
-/

namespace Mlogv32.Scripts
open Mlogv32.Parser

/-- The words of a statement. -/
def words (s : List Char) : List (List Char) := (s.splitOnP isBlank).filter (· ≠ [])

/-- The statements of a program, word by word. -/
def instructions (code : String) : List (List String) :=
  ((pieces code.toList).filter fun p => !p.isLabel).map fun p => (words p.text).map String.ofList

/-- The variables of a program of `set` statements when it stops. Other programs have no result. -/
def lookupTable : List (List String) → (String → Option String) → Option (String → Option String)
  | ["set", var, value] :: rest, table => lookupTable rest (Function.update table var (some value))
  | ["stop"] :: _, table => some table
  | _, _ => none

/-- The variables that a program of `stop` and `draw triangle` statements names, in order. -/
def drawnVariables : List (List String) → Option (List String)
  | [] => some []
  | ["stop"] :: rest => drawnVariables rest
  | ["draw", "triangle", x, y, x2, y2, x3, y3] :: rest =>
      (drawnVariables rest).map ([x, y, x2, y2, x3, y3] ++ ·)
  | _ => none

/-! ## Lines -/

/-- The text goes on with another line, or ends. -/
def LineEnd (t : List Char) : Prop := t = [] ∨ ∃ s, t = '\n' :: s

theorem LineEnd.closes {t : List Char} (h : LineEnd t) : closes t = false := by
  rcases h with rfl | ⟨s, rfl⟩ <;> rfl

/-- A line without `;` and `#` is one statement, whatever its quotes. -/
theorem cut_line {x t : List Char} (hx : ∀ c ∈ x, isEnd c = false) (ht : LineEnd t) :
    cut false (x ++ t) = (x, t) ∧ (closes (x ++ t) = true → cut true (x ++ t) = (x, t)) := by
  induction x with
  | nil =>
      refine ⟨?_, fun h => absurd h (by simp [ht.closes])⟩
      rcases ht with rfl | ⟨s, rfl⟩
      · rfl
      · simp [cut, show isEnd '\n' = true from rfl]
  | cons c x ih =>
      obtain ⟨ihcode, ihstring⟩ := ih fun d hd => hx d (List.mem_cons_of_mem _ hd)
      have hc : isEnd c = false := hx c (by simp)
      constructor
      · rw [List.cons_append, cut, if_neg (by simp [hc])]
        cases hflag : (decide (c = '"') && closes (x ++ t)) with
        | false => rw [ihcode]
        | true =>
            rw [Bool.and_eq_true] at hflag
            rw [ihstring hflag.2]
      · intro hcloses
        have hnewline : c ≠ '\n' := by
          rintro rfl
          exact absurd hc (by decide)
        rw [List.cons_append, closes_cons hnewline, Bool.or_eq_true, decide_eq_true_eq] at hcloses
        rw [List.cons_append, cut]
        by_cases hquote : c = '"'
        · simp only [hquote, ne_eq, not_true_eq_false, decide_false, ihcode]
        · simp only [ne_eq, hquote, not_false_eq_true, decide_true,
            ihstring (hcloses.resolve_left hquote)]

/-- A line that begins with a word, without `;` and `#`. -/
structure IsLine (x : List Char) : Prop where
  head : ∃ c s, x = c :: s ∧ isTokenChar c = true
  chars : ∀ c ∈ x, isEnd c = false

theorem pieces_lines {lines : List (List Char)} (h : ∀ x ∈ lines, IsLine x) :
    (pieces (['\n'].intercalate lines)).map Piece.text = lines := by
  have hitems (pos : Nat) :
      ((items .code none pos (['\n'].intercalate lines)).filterMap Item.piece?).map Piece.text =
        lines := by
    induction lines generalizing pos with
    | nil => rfl
    | cons x lines ih =>
        obtain ⟨c, s, rfl, hc⟩ := (h x (by simp)).head
        have hchars := (h _ List.mem_cons_self).chars
        cases lines with
        | nil =>
            have hcut := (cut_line hchars (.inl rfl)).1
            rw [List.append_nil] at hcut
            rw [List.intercalate_singleton, items_piece hc, hcut]
            rfl
        | cons y lines =>
            have hcut := (cut_line hchars (.inr ⟨['\n'].intercalate (y :: lines), rfl⟩)).1
            have hnext := ih (fun x hx => h x (List.mem_cons_of_mem _ hx)) (pos + (c :: s).length + 1)
            rw [List.intercalate_cons_cons, List.append_assoc, List.singleton_append,
              List.cons_append, items_piece hc,
              ← List.cons_append, hcut, itemsAfter, if_neg (by decide), items_separator rfl]
            exact congrArg ((c :: s) :: ·) hnext
  exact hitems 0

/-! ## Words -/

/-- A word of a line. -/
structure IsWord (w : List Char) : Prop where
  ne_nil : w ≠ []
  chars : ∀ c ∈ w, isTokenChar c = true

section
variable {w : List Char} {ws : List (List Char)} {c : Char}

theorem isBlank_of_isTokenChar (h : isTokenChar c = true) : isBlank c = false := by
  simp only [isTokenChar, Bool.and_eq_true, decide_eq_true_eq] at h
  simp [isBlank, h]

theorem isEnd_of_isTokenChar (h : isTokenChar c = true) : isEnd c = false := by
  rw [isEnd_eq_false]
  exact .inl (isTokenChar_iff.mp h)

theorem words_intercalate (h : ∀ w ∈ ws, IsWord w) : words ([' '].intercalate ws) = ws := by
  induction ws with
  | nil => rfl
  | cons w ws ih =>
      have hw := h w (by simp)
      have hblank : ∀ c ∈ w, isBlank c = false := fun c hc => isBlank_of_isTokenChar (hw.chars c hc)
      cases ws with
      | nil =>
          rw [List.intercalate_singleton, words, List.splitOnP_eq_singleton hblank]
          simp [hw.ne_nil]
      | cons v ws =>
          have hrest := ih fun w hw => h w (List.mem_cons_of_mem _ hw)
          rw [words] at hrest ⊢
          rw [List.intercalate_cons_cons, List.append_assoc, List.singleton_append,
            List.splitOnP_append_cons_of_forall_mem hblank ' ' rfl,
            List.filter_cons_of_pos (by simp [hw.ne_nil]), hrest]

theorem isLine_intercalate (hne : ws ≠ []) (h : ∀ w ∈ ws, IsWord w) : IsLine ([' '].intercalate ws) := by
  induction ws with
  | nil => exact absurd rfl hne
  | cons w ws ih =>
      have hw := h w (by simp)
      obtain ⟨c, s, rfl⟩ := List.exists_cons_of_ne_nil hw.ne_nil
      have hend : ∀ d ∈ c :: s, isEnd d = false := fun d hd => isEnd_of_isTokenChar (hw.chars d hd)
      cases ws with
      | nil =>
          rw [List.intercalate_singleton]
          exact ⟨⟨c, s, rfl, hw.chars c (by simp)⟩, hend⟩
      | cons v ws =>
          have hrest := ih (by simp) fun w hw => h w (List.mem_cons_of_mem _ hw)
          rw [List.intercalate_cons_cons]
          refine ⟨⟨c, s ++ [' '] ++ [' '].intercalate (v :: ws), rfl, hw.chars c (by simp)⟩,
            fun d hd => ?_⟩
          rcases List.mem_append.mp hd with hd | hd
          · rcases List.mem_append.mp hd with hd | hd
            · exact hend d hd
            · rw [List.mem_singleton.mp hd]
              rfl
          · exact hrest.chars d hd

/-- A line of several words is not a label. -/
theorem not_isLabel_of_words {p : Piece} {v : List Char} (h : ∀ u ∈ w :: v :: ws, IsWord u)
    (htext : p.text = [' '].intercalate (w :: v :: ws)) : p.isLabel = false := by
  obtain ⟨d, y, hd, htoken⟩ :=
    (isLine_intercalate (by simp) fun u hu => h u (List.mem_cons_of_mem _ hu)).head
  have htext' : p.text = (w ++ [' ']) ++ d :: y := by rw [htext, List.intercalate_cons_cons, hd]
  have hlength := length_lt_trimEnd (w := w ++ [' ']) (y := y) (isBlank_of_isTokenChar htoken)
  rw [← htext'] at hlength
  have hfront : w ++ [' '] <+: trimEnd p.text := by
    refine List.prefix_of_prefix_length_le ?_ (List.rdropWhile_prefix isBlank p.text) hlength.le
    rw [htext']
    exact List.prefix_append _ _
  have hblank : (trimEnd p.text).any isBlank = true :=
    List.any_eq_true.mpr ⟨' ', hfront.subset (by simp), rfl⟩
  simp [Piece.isLabel, hblank]

end

/-! ## Programs -/

/-- The words of a statement of a generated program. -/
structure IsStatement (ws : List String) : Prop where
  words : ∀ w ∈ ws, IsWord w.toList
  form : ws = ["stop"] ∨ 2 ≤ ws.length

theorem IsStatement.ne_nil {ws : List String} (h : IsStatement ws) : ws ≠ [] := by
  rintro rfl
  rcases h.form with h | h
  · cases h
  · simp at h

theorem IsStatement.toList {ws : List String} (h : IsStatement ws) :
    ∀ w ∈ ws.map String.toList, IsWord w := by
  intro w hw
  obtain ⟨v, hv, rfl⟩ := List.mem_map.mp hw
  exact h.words v hv

theorem IsStatement.isLabel {ws : List String} (h : IsStatement ws) {p : Piece}
    (htext : p.text = [' '].intercalate (ws.map String.toList)) : p.isLabel = false := by
  rcases h.form with rfl | hlength
  · have hstop : trimEnd p.text = ['s', 't', 'o', 'p'] := by
      rw [htext]
      rfl
    simp [Piece.isLabel, hstop]
  · cases ws with
    | nil => exact absurd rfl h.ne_nil
    | cons w ws =>
        cases ws with
        | nil => simp at hlength
        | cons v ws => exact not_isLabel_of_words h.toList htext

theorem instructions_intercalate {wss : List (List String)} (h : ∀ ws ∈ wss, IsStatement ws) :
    instructions ("\n".intercalate (wss.map (" ".intercalate ·))) = wss := by
  have htext : ("\n".intercalate (wss.map (" ".intercalate ·))).toList =
      ['\n'].intercalate (wss.map fun ws => [' '].intercalate (ws.map String.toList)) := by
    rw [String.toList_intercalate, List.map_map]
    simp only [Function.comp_def, String.toList_intercalate]
    rfl
  have hpieces : (pieces ("\n".intercalate (wss.map (" ".intercalate ·))).toList).map Piece.text =
      wss.map fun ws => [' '].intercalate (ws.map String.toList) := by
    rw [htext]
    refine pieces_lines fun x hx => ?_
    obtain ⟨ws, hws, rfl⟩ := List.mem_map.mp hx
    exact isLine_intercalate (by simpa using (h ws hws).ne_nil) (h ws hws).toList
  rw [instructions]
  generalize pieces ("\n".intercalate (wss.map (" ".intercalate ·))).toList = ps at hpieces
  clear htext
  induction ps generalizing wss with
  | nil => exact (List.map_eq_nil_iff.mp hpieces.symm).symm
  | cons p ps ih =>
      cases wss with
      | nil => cases hpieces
      | cons ws wss =>
          rw [List.map_cons, List.map_cons, List.cons.injEq] at hpieces
          have hws := h ws (by simp)
          have hrest := ih (fun ws hws => h ws (List.mem_cons_of_mem _ hws)) hpieces.2
          rw [List.filter_cons_of_pos (by simp [hws.isLabel hpieces.1]), List.map_cons, hrest, hpieces.1,
            words_intercalate hws.toList, List.map_map]
          simp [Function.comp_def]

end Mlogv32.Scripts
