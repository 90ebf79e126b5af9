import Mlogv32.Display.Lemmas.Receive

/-!
# Printing text

A redraw goes back through the cells of the text. `Drawn` says what the display shows when the cells
behind `next` are done, and a round of `print_loop` moves `next` by one cell.
-/

namespace Mlogv32.Display
open Mlog Cpu Logic

/-! ## What is shown -/

def Draw.isClear : Draw → Bool
  | clear _ _ _ => true
  | _ => false

/-- The draw instructions since the last `draw clear`. -/
def sinceClear (draws : List Draw) : List Draw := draws.rtakeWhile fun d => !d.isClear

theorem sinceClear_clear (draws : List Draw) (r g b : Int) : sinceClear (draws ++ [.clear r g b]) = [] :=
  List.rtakeWhile_concat_neg _ _ _ (by simp [Draw.isClear])

theorem sinceClear_print (draws : List Draw) (x y : Int) (char : Value) :
    sinceClear (draws ++ [.print x y char]) = sinceClear draws ++ [.print x y char] :=
  List.rtakeWhile_concat_pos _ _ _ rfl

/-- The lowest cell on the screen. -/
def firstCell (term : Term) : Nat := 70 * (term.lines.length - min term.lines.length 37)

/-- A character that the screen shows, and its cell of the text. -/
structure Visible (term : Term) (j : Nat) (char : Int) : Prop where
  cell : (term.text lfChar)[j]? = some char
  first : firstCell term ≤ j
  ne_lf : char ≠ lfChar
  ne_space : char ≠ spaceChar

/-- Where the character of a cell is printed. -/
def cellDraw (term : Term) (j : Int) (char : Int) : Draw :=
  .print (5 + 7 * (j % 70)) (6 + 13 * (term.lines.length - j / 70)) (.num char)

/-- The display shows visible characters only, and all that are behind `next`. -/
structure Drawn (term : Term) (draws : List Draw) (next : Int) : Prop where
  sound : ∀ d ∈ sinceClear draws, ∃ j char, Visible term j char ∧ d = cellDraw term j char
  drawn : ∀ (j : Nat) char, Visible term j char → next < j → cellDraw term j char ∈ sinceClear draws

/-- The next cell to print. -/
structure At (term : Term) (s : Scrolling) (next : Int) : Prop where
  lt : next < (term.text lfChar).length
  printX : s.printX = 5 + 7 * (next % 70)
  printY : s.printY = 6 + 13 * (term.lines.length - next / 70)
  bufferRead : s.printY ≤ s.bufferY → s.bufferRead = slot next

/-- `{ s with .. }` for the fields that `print_loop` writes. -/
def Scrolling.withPrint (s : Scrolling) (bufferRead : Value) (printX printY : Int)
    (draws : List Draw) : Scrolling :=
  { s with bufferRead := bufferRead, printX := printX, printY := printY, draws := draws }

variable {c : Nat} {term : Term} {s : Scrolling} {fuel : Nat} {next : Int}

theorem Holds.withPrint (h : Holds c term s) (bufferRead : Value) (printX printY : Int)
    (draws : List Draw) :
    Holds c term (s.withPrint bufferRead printX printY draws) :=
  ⟨⟨h.buffered.linked, h.buffered.write, h.buffered.cells⟩, h.rxRead_range, h.col, h.bufferY⟩

theorem length_text (term : Term) :
    (term.text lfChar).length = 70 * term.lines.length + term.current.length :=
  term.text_length lfChar

/-- The redraw is not complete as long as the next cell is on the screen. -/
theorem At.le_iff (h : At term s next) (hholds : Holds c term s) :
    s.printY ≤ s.bufferY ↔ (firstCell term : Int) ≤ next := by
  rw [h.printY, hholds.bufferY, firstCell]
  omega

/-! ## A round of the loop -/

theorem printChar_eq (h : Holds c term s) (hat : At term s next) (hY : s.printY ≤ s.bufferY)
    (hdrawn : Drawn term s.draws next) (commands : Int) :
    ∃ commands' draws, s.printChar commands =
      (commands', s.withPrint (slot (next - 1)) s.printX s.printY draws) ∧
      Drawn term draws (next - 1) := by
  have hfirst := (hat.le_iff h).mp hY
  have hlt := hat.lt
  have hlength := length_text term
  have hcurrent := term.current_lt
  obtain ⟨j, rfl⟩ := Int.eq_ofNat_of_zero_le (by omega : 0 ≤ next)
  have hj : j < (term.text lfChar).length := by exact_mod_cast hlt
  have hget : (term.text lfChar)[j]? = some (term.text lfChar)[j] := List.getElem?_eq_getElem hj
  have hwindow : (term.text lfChar).length ≤ j + 2660 := by
    rw [firstCell] at hfirst
    omega
  have hchar : readVar s.buffer s.bufferRead .null = .num (term.text lfChar)[j] := by
    rw [hat.bufferRead hY, readVar_slot]
    exact h.buffered.cells j _ hwindow hget
  have hdecr : readVar s.decr s.bufferRead s.bufferRead = slot (j - 1) := by
    rw [hat.bufferRead hY, readVar_slot, h.buffered.linked.decr]
  generalize (term.text lfChar)[j] = char at hget hchar
  rw [Scrolling.printChar]
  simp only [hchar, hdecr, Value.num.injEq]
  by_cases hskip : char = lfChar ∨ char = spaceChar
  · refine ⟨commands, s.draws, if_pos hskip, hdrawn.sound, fun i x hi hlt => ?_⟩
    refine hdrawn.drawn i x hi (lt_of_le_of_ne (by omega) fun heq => ?_)
    obtain rfl : j = i := by exact_mod_cast heq
    obtain rfl : char = x := Option.some.inj (hget.symm.trans hi.cell)
    exact hskip.elim hi.ne_lf hi.ne_space
  · rw [not_or] at hskip
    have hvisible : Visible term j char := ⟨hget, by exact_mod_cast hfirst, hskip.1, hskip.2⟩
    refine ⟨commands + 1, s.draws ++ [cellDraw term j char], ?_, ?_⟩
    · rw [if_neg (not_or.mpr hskip), cellDraw, ← hat.printX, ← hat.printY]
      rfl
    · have hshown : sinceClear (s.draws ++ [cellDraw term j char]) = sinceClear s.draws ++
          [cellDraw term j char] :=
        sinceClear_print ..
      constructor
      · intro d hd
        rw [hshown] at hd
        rcases List.mem_append.mp hd with hd | hd
        · exact hdrawn.sound d hd
        · exact ⟨j, char, hvisible, List.mem_singleton.mp hd⟩
      · intro i x hi hlt
        rw [hshown]
        by_cases heq : j = i
        · subst heq
          obtain rfl : char = x := Option.some.inj (hget.symm.trans hi.cell)
          exact List.mem_append_right _ (List.mem_singleton.mpr rfl)
        · exact List.mem_append_left _ (hdrawn.drawn i x hi (by omega))

/-- `print_x` and `print_y` move to the next cell. -/
theorem advance_eq (hat : At term s next) (hY : s.printY ≤ s.bufferY) (draws : List Draw) :
    ∃ left printX printY,
      (if s.printX - charWidth ≥ baseX then
        (false, s.withPrint (slot (next - 1)) (s.printX - charWidth) s.printY draws)
        else (s.withPrint (slot (next - 1)) (s.printX - charWidth) s.printY draws).shiftUp) =
        (left, s.withPrint (slot (next - 1)) printX printY draws) ∧
      At term (s.withPrint (slot (next - 1)) printX printY draws) (next - 1) ∧
      (left = false → printY ≤ s.bufferY) := by
  have hX := hat.printX
  have hYeq := hat.printY
  have hlt := hat.lt
  by_cases hcol : s.printX - charWidth ≥ baseX
  · refine ⟨false, s.printX - 7, s.printY, if_pos hcol, ⟨by omega, ?_, ?_, fun _ => rfl⟩, fun _ => hY⟩
    · change s.printX - 7 ≥ 5 at hcol
      change s.printX - 7 = _
      omega
    · change s.printX - 7 ≥ 5 at hcol
      change s.printY = _
      omega
  · refine ⟨decide (s.printY + 13 > s.bufferY), 488, s.printY + 13, if_neg hcol,
      ⟨by omega, ?_, ?_, fun _ => rfl⟩, ?_⟩
    · change ¬ s.printX - 7 ≥ 5 at hcol
      change (488 : Int) = _
      omega
    · change ¬ s.printX - 7 ≥ 5 at hcol
      change s.printY + 13 = _
      omega
    · intro hleft
      simpa using hleft

/-! ## The loop -/

/-- What `print` leaves: the text is shown down to a cell, where the next tick goes on. -/
structure Shows (c : Nat) (term : Term) (s : Scrolling) (next : Int) : Prop where
  holds : Holds c term s
  cursor : At term s next
  drawn : Drawn term s.draws next

theorem printLoop_eq (h : Shows c term s next) (hY : s.printY ≤ s.bufferY)
    (hfuel : next - firstCell term < fuel) (commands : Int) :
    ∃ s' next', Scrolling.printLoop fuel commands s = some s' ∧ s'.point = s.point ∧
    Shows c term s' next' := by
  induction fuel generalizing s next commands with
  | zero =>
      have hfirst := (h.cursor.le_iff h.holds).mp hY
      omega
  | succ fuel ih =>
      obtain ⟨commands', draws, hchar, hdrawn⟩ := printChar_eq h.holds h.cursor hY h.drawn commands
      obtain ⟨left, printX, printY, hadvance, hat, hstay⟩ := advance_eq h.cursor hY draws
      have hshows : Shows c term (s.withPrint (slot (next - 1)) printX printY draws) (next - 1) :=
        ⟨h.holds.withPrint .., hat, hdrawn⟩
      rw [Scrolling.printLoop, hchar]
      change ∃ s' next', (let p := if s.printX - charWidth ≥ baseX then
          (false, s.withPrint (slot (next - 1)) (s.printX - charWidth) s.printY draws)
        else (s.withPrint (slot (next - 1)) (s.printX - charWidth) s.printY draws).shiftUp
        if p.1 then some p.2 else if commands' < 254 then Scrolling.printLoop fuel commands' p.2
        else some p.2) = some s' ∧ _
      rw [hadvance]
      cases left with
      | true => exact ⟨_, _, rfl, rfl, hshows⟩
      | false =>
          by_cases hcommands : commands' < 254
          · obtain ⟨s', next', hrun, hpoint, hshows'⟩ := ih hshows (hstay rfl) (by omega) commands'
            exact ⟨s', next', by simp only [Bool.false_eq_true, if_false, if_pos hcommands, hrun],
              hpoint, hshows'⟩
          · exact ⟨s.withPrint (slot (next - 1)) printX printY draws, next - 1,
              by simp only [Bool.false_eq_true, if_false, if_neg hcommands], rfl, hshows⟩

/-- The rest of the screen is less than 2660 cells. -/
theorem At.sub_firstCell_lt (h : At term s next) : next - firstCell term < 2660 := by
  have hlt := h.lt
  have hlength := length_text term
  have hcurrent := term.current_lt
  rw [firstCell]
  omega

theorem print_eq (t : Tick c) (h : Shows c term s next) (hfuel : 2660 ≤ fuel) :
    ∃ s' next', s.print fuel t = some s' ∧ s'.point = s.point ∧ Shows c term s' next' := by
  rw [Scrolling.print]
  by_cases hdone : s.printY > s.bufferY
  · exact ⟨s, next, if_pos hdone, rfl, h⟩
  · have hX : ¬ s.printX < baseX := by
      have hprintX := h.cursor.printX
      change ¬ s.printX < 5
      omega
    have hcells := h.cursor.sub_firstCell_lt
    rw [if_neg hdone, if_neg hX]
    exact printLoop_eq h (not_lt.mp hdone) (by omega) t.bufferSize

/-- The redraw begins at the start of a line, and shifts up before it prints. -/
structure AtLineStart (term : Term) (s : Scrolling) : Prop where
  current : term.current.length = 0
  printX : s.printX = -2
  printY : s.printY = 6
  bufferRead : s.bufferRead = slot ((term.text lfChar).length - 1)

theorem print_lineStart (t : Tick c) (h : Holds c term s) (hstart : AtLineStart term s)
    (hdrawn : Drawn term s.draws ((term.text lfChar).length - 1)) (hfuel : 2660 ≤ fuel) :
    ∃ s' next', s.print fuel t = some s' ∧ s'.point = s.point ∧ Shows c term s' next' := by
  have hY := h.bufferY
  have hlength := length_text term
  have hcurrent := hstart.current
  have hprintX := hstart.printX
  have hprintY := hstart.printY
  have hnot : ¬ s.printY > s.bufferY := by omega
  have hX : s.printX < baseX := by
    change s.printX < 5
    omega
  have hat : At term (s.withPrint s.bufferRead 488 19 s.draws) ((term.text lfChar).length - 1) := by
    refine ⟨by omega, ?_, ?_, fun _ => hstart.bufferRead⟩
    · change (488 : Int) = _
      omega
    · change (19 : Int) = _
      omega
  have hshows : Shows c term (s.withPrint s.bufferRead 488 19 s.draws) ((term.text lfChar).length - 1) :=
    ⟨h.withPrint .., hat, hdrawn⟩
  have hshift : s.shiftUp = (decide (19 > s.bufferY), s.withPrint s.bufferRead 488 19 s.draws) := by
    rw [Scrolling.shiftUp, hprintY]
    rfl
  rw [Scrolling.print, if_neg hnot, if_pos hX, hshift]
  by_cases hdone : 19 > s.bufferY
  · exact ⟨_, _, if_pos (decide_eq_true hdone), rfl, hshows⟩
  · by_cases hcommands : t.bufferSize < 254
    · have hcells := hat.sub_firstCell_lt
      have hrounds : ((term.text lfChar).length - 1 : Int) - firstCell term < fuel := by omega
      obtain ⟨s', next', hrun, hpoint, hshows'⟩ :=
        printLoop_eq hshows (not_lt.mp hdone) hrounds t.bufferSize
      exact ⟨s', next', by simp [hdone, hcommands, hrun], hpoint, hshows'⟩
    · exact ⟨s.withPrint s.bufferRead 488 19 s.draws, _, by simp [hdone, hcommands], rfl, hshows⟩

end Mlogv32.Display
