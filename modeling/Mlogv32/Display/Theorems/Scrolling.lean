import Mlogv32.Display.Lemmas.Print

/-!
# The text of the scrolling display

In every run the display shows the text of a terminal: nothing else at any time, and all of it
whenever a redraw is complete.
-/

namespace Mlogv32.Display
open Mlog Cpu Logic

variable {c : Nat} {term : Term} {s s' : Scrolling} {fuel : Nat} {next : Int}

/-! ## Runs -/

/-- The terminal that receives the characters. -/
def terminal (chars : List Int) : Term := (Terminal.empty Int (by decide)).write lfChar chars

/-- The characters received since the display was reset, after a tick. -/
def received (t : Tick c) (s s' : Scrolling) (chars : List Int) : List Int :=
  if s'.point = .resetLoop then []
  else if s.point = .main then chars ++ t.queue s.rxRead
  else chars

/-- The state after the ticks, and the characters received since the display was reset. -/
def run (fuel : Nat) : List (Tick c) → Scrolling → List Int → Option (Scrolling × List Int)
  | [], s, chars => some (s, chars)
  | t :: ticks, s, chars =>
    match s.step fuel t with
    | none => none
    | some s' => run fuel ticks s' (received t s s' chars)

/-- A character of the screen, where the display prints it. -/
def OnScreen (chars : List Int) (d : Draw) : Prop :=
  ∃ row col char, (terminal chars).cell? 38 row col = some char ∧ char ≠ lfChar ∧ char ≠ spaceChar ∧
    d = .print (5 + 7 * col) (6 + 13 * row) (.num char)

/-! ## Receiving -/

/-- New text in the same lines keeps what is shown. -/
theorem Drawn.sound_of_prefix {term' : Term} {draws : List Draw} (h : Drawn term draws next)
    (hlines : term'.lines.length = term.lines.length) (hfront : term.text lfChar <+: term'.text lfChar) :
    ∀ d ∈ sinceClear draws, ∃ j char, Visible term' j char ∧ d = cellDraw term' j char := by
  intro d hd
  obtain ⟨j, char, hvisible, rfl⟩ := h.sound d hd
  obtain ⟨rest, hrest⟩ := hfront
  have hlt := (List.getElem?_eq_some_iff.mp hvisible.cell).1
  refine ⟨j, char, ⟨?_, ?_, hvisible.ne_lf, hvisible.ne_space⟩, ?_⟩
  · rw [← hrest, List.getElem?_append_left hlt, hvisible.cell]
  · rw [firstCell, hlines]
    exact hvisible.first
  · rw [cellDraw, cellDraw, hlines]

/-- A redraw has everything before it. -/
theorem drawn_last {draws : List Draw}
    (h : ∀ d ∈ sinceClear draws, ∃ j char, Visible term j char ∧ d = cellDraw term j char) :
    Drawn term draws ((term.text lfChar).length - 1) := by
  refine ⟨h, fun j char hvisible hlt => ?_⟩
  have hj := (List.getElem?_eq_some_iff.mp hvisible.cell).1
  omega

/-- After `redraw` the next cell is the last one. -/
theorem redraw_eq (h : Holds c term s) (hdrawn : Drawn term s.draws ((term.text lfChar).length - 1)) :
    Holds c term s.redraw ∧ Drawn term s.redraw.draws ((term.text lfChar).length - 1) ∧
      (At term s.redraw ((term.text lfChar).length - 1) ∨ AtLineStart term s.redraw) := by
  have hlength := length_text term
  have hcurrent := term.current_lt
  have hcol := h.col
  have hread : s.redraw.bufferRead = slot ((term.text lfChar).length - 1) := by
    rw [Scrolling.redraw]
    simp only [h.buffered.write, readVar_slot, h.buffered.linked.decr]
  have hX : s.redraw.printX = (s.bufferWriteCol - 1) * 7 + 5 := rfl
  refine ⟨⟨⟨h.buffered.linked, h.buffered.write, h.buffered.cells⟩, h.rxRead_range,
    h.col, h.bufferY⟩, hdrawn, ?_⟩
  by_cases hstart : term.current.length = 0
  · exact .inr ⟨hstart, by omega, rfl, hread⟩
  · refine .inl ⟨by omega, by omega, ?_, fun _ => hread⟩
    change (6 : Int) = _
    omega

theorem receive_eq (t : Tick c) (h : Shows c term s next) (hfuel : c + 70 ≤ fuel) :
    ∃ s' next', s.receive fuel t = some s' ∧ s'.point = s.point ∧
    Holds c (term.write lfChar (t.queue s.rxRead)) s' ∧
      Drawn (term.write lfChar (t.queue s.rxRead)) s'.draws next' ∧
      (At (term.write lfChar (t.queue s.rxRead)) s' next' ∨
        next' = (((term.write lfChar (t.queue s.rxRead)).text lfChar).length : Int) - 1 ∧
          AtLineStart (term.write lfChar (t.queue s.rxRead)) s') := by
  have hring := Ring.of_range (fun i => t.uart (i + 256)) h.holds.rxRead_range t.rxWrite_range
  rw [Scrolling.receive]
  by_cases hempty : s.rxRead = t.uart 511
  · have hqueue : t.queue s.rxRead = [] := hring.empty_iff.mp hempty
    rw [if_pos hempty, hqueue, Terminal.write_nil]
    exact ⟨s, next, rfl, rfl, h.holds, h.drawn, .inl h.cursor⟩
  · have hne : t.queue s.rxRead ≠ [] := fun hqueue => hempty (hring.empty_iff.mpr hqueue)
    have hlength : (t.queue s.rxRead).length ≤ c := hring.length
    obtain ⟨shouldScroll, s1, hrun, hholds, hscroll, hdraws, hpoint⟩ :=
      uartLoop_eq hring hne h.holds ((add_le_add_left hlength 70).trans hfuel) false
    change Holds c (term.write lfChar (t.queue s.rxRead)) s1 at hholds
    have hfront := term.text_prefix_write lfChar (t.queue s.rxRead)
    rw [if_neg hempty, hrun]
    cases shouldScroll with
    | true =>
        have hclear : sinceClear (s1.draw (.clear 0 0 0)).draws = [] := sinceClear_clear ..
        have hdrawn : Drawn (term.write lfChar (t.queue s.rxRead)) (s1.draw (.clear 0 0 0)).draws
            (((term.write lfChar (t.queue s.rxRead)).text lfChar).length - 1) := by
          refine drawn_last ?_
          rw [hclear]
          simp
        have hholds' : Holds c (term.write lfChar (t.queue s.rxRead)) (s1.draw (.clear 0 0 0)) :=
          ⟨⟨hholds.buffered.linked, hholds.buffered.write, hholds.buffered.cells⟩,
            hholds.rxRead_range, hholds.col,
            hholds.bufferY⟩
        obtain ⟨hredraw, hdrawn', hcursor⟩ := redraw_eq hholds' hdrawn
        exact ⟨_, _, rfl, hpoint, hredraw, hdrawn', hcursor.imp_right fun hstart => ⟨rfl, hstart⟩⟩
    | false =>
        have hlines : (term.write lfChar (t.queue s.rxRead)).lines.length = term.lines.length :=
          (hscroll rfl).2
        have hdrawn := drawn_last (h.drawn.sound_of_prefix hlines hfront)
        rw [← hdraws] at hdrawn
        obtain ⟨hredraw, hdrawn', hcursor⟩ := redraw_eq hholds hdrawn
        exact ⟨_, _, rfl, hpoint, hredraw, hdrawn', hcursor.imp_right fun hstart => ⟨rfl, hstart⟩⟩

/-! ## Steps -/

/-- The display shows the terminal that has received `chars`, or waits to be turned on. -/
def Inv (c : Nat) (chars : List Int) (s : Scrolling) : Prop :=
  if s.point = .resetLoop then chars = [] ∧ sinceClear s.draws = []
  else ∃ next, Shows c (terminal chars) s next

theorem inv_reset (s : Scrolling) : Inv c [] s.reset := by
  rw [Inv, if_pos (show s.reset.point = .resetLoop from rfl)]
  exact ⟨rfl, sinceClear_clear ..⟩

theorem init_eq (t : Tick c) (s : Scrolling) (hfuel : 2660 ≤ fuel) :
    ∃ s', s.init fuel t = some s' ∧ s'.point = .main ∧ Shows c (terminal []) s' (-2590) := by
  have hnone : LinkedTo 0 s.incr s.decr := ⟨fun j h0 hj => by omega, fun j h0 hj => by omega⟩
  have hrounds : (2660 : Int) - 0 ≤ fuel := by omega
  obtain ⟨incr, decr, hrun, hlinked⟩ := incrDecrLoop_linked le_rfl (by decide) hrounds hnone
  have hloop : Scrolling.incrDecrLoop fuel (.var 2659) (.var 0) 1 s.incr s.decr =
    some (incr, decr) := hrun
  rw [Scrolling.init, hloop]
  have hshown : sinceClear (s.draws ++ [.reset, .color 255 255 255 255, .clear 0 0 0]) = [] := by
    rw [show s.draws ++ [.reset, .color 255 255 255 255, .clear 0 0 0] =
      (s.draws ++ [.reset, .color 255 255 255 255]) ++ [.clear 0 0 0] by simp]
    exact sinceClear_clear ..
  refine ⟨_, rfl, rfl, ⟨⟨hlinked, rfl, by simp [terminal, Terminal.empty, Terminal.text]⟩,
    t.rxRead_range, rfl, rfl⟩, ?_, ?_⟩
  · exact ⟨by simp [terminal, Terminal.empty, Terminal.text], rfl, rfl, fun hY =>
      absurd hY (by decide : ¬ maxY ≤ baseY)⟩
  · refine ⟨?_, ?_⟩
    · rw [hshown]
      simp
    · intro j char hvisible
      have hcell := hvisible.cell
      simp [terminal, Terminal.empty, Terminal.text] at hcell

theorem checkPower_cases (t : Tick c) (s : Scrolling) :
    s.checkPower t = s.reset ∨ ∃ point, point ≠ .resetLoop ∧
    s.checkPower t = { s with point := point } := by
  rw [Scrolling.checkPower]
  split_ifs
  · exact .inl rfl
  · exact .inr ⟨.main, by decide, rfl⟩
  · exact .inr ⟨.main, by decide, rfl⟩
  · exact .inr ⟨.waitForCpu, by decide, rfl⟩

theorem checkPower_inv {chars : List Int} (t : Tick c) (h : Shows c (terminal chars) s next) :
    Inv c (if (s.checkPower t).point = .resetLoop then [] else chars) (s.checkPower t) := by
  rcases checkPower_cases t s with hreset | ⟨point, hpoint, hmove⟩
  · rw [hreset, if_pos (show s.reset.point = .resetLoop from rfl)]
    exact inv_reset s
  · rw [hmove, if_neg hpoint, Inv, if_neg hpoint]
    exact ⟨next, ⟨⟨h.holds.buffered.linked, h.holds.buffered.write, h.holds.buffered.cells⟩,
      h.holds.rxRead_range,
      h.holds.col, h.holds.bufferY⟩,
      ⟨h.cursor.lt, h.cursor.printX, h.cursor.printY, h.cursor.bufferRead⟩,
      ⟨h.drawn.sound, h.drawn.drawn⟩⟩

theorem terminal_append (chars chars' : List Int) :
    terminal (chars ++ chars') = (terminal chars).write lfChar chars' :=
  Terminal.write_append ..

/-- Every tick keeps the invariant. -/
theorem step_inv {chars : List Int} (t : Tick c) (h : Inv c chars s) (hfuel : c + 2660 ≤ fuel) :
    ∃ s', s.step fuel t = some s' ∧ Inv c (received t s s' chars) s' := by
  rw [Scrolling.step]
  cases hpoint : s.point with
  | resetLoop =>
      rw [Inv, if_pos hpoint] at h
      obtain ⟨rfl, hshown⟩ := h
      by_cases hpower : t.displayPower = true
      · obtain ⟨s', hinit, hmain, hshows⟩ := init_eq t s (by omega : 2660 ≤ fuel)
        refine ⟨s', by simp only [if_pos hpower, hinit], ?_⟩
        rw [received, hmain, hpoint, Inv, hmain]
        exact ⟨_, hshows⟩
      · refine ⟨s, by simp only [if_neg hpower], ?_⟩
        rw [received, if_pos hpoint, Inv, if_pos hpoint]
        exact ⟨rfl, hshown⟩
  | main =>
      have hne : s.point ≠ .resetLoop := by rw [hpoint]; decide
      rw [Inv, if_neg hne] at h
      obtain ⟨next, h⟩ := h
      obtain ⟨s1, next1, hreceive, hpoint1, hholds, hdrawn, hcursor⟩ :=
        receive_eq t h (by omega : c + 70 ≤ fuel)
      rw [← terminal_append] at hholds hdrawn hcursor
      obtain ⟨s2, next2, hprint, hpoint2, hshows⟩ : ∃ s2 next2, s1.print fuel t = some s2 ∧
        s2.point = s1.point ∧
          Shows c (terminal (chars ++ t.queue s.rxRead)) s2 next2 := by
        rcases hcursor with hat | ⟨rfl, hstart⟩
        · exact print_eq t ⟨hholds, hat, hdrawn⟩ (by omega)
        · exact print_lineStart t hholds hstart hdrawn (by omega)
      refine ⟨s2.checkPower t, by simp only [hreceive, hprint, Option.map_some], ?_⟩
      rw [received, if_pos hpoint]
      exact checkPower_inv t hshows
  | waitForCpu =>
      have hne : s.point ≠ .resetLoop := by rw [hpoint]; decide
      refine ⟨_, rfl, ?_⟩
      split_ifs with hpower
      · rw [received, if_pos (show s.reset.point = .resetLoop from rfl)]
        exact inv_reset s
      · rw [received, if_neg hne, hpoint, if_neg (by decide)]
        exact h

/-! ## What the display shows -/

theorem run_inv {chars : List Int} (hfuel : c + 2660 ≤ fuel) (ticks : List (Tick c))
    (h : Inv c chars s) :
    ∃ s' chars', run fuel ticks s chars = some (s', chars') ∧ Inv c chars' s' := by
  induction ticks generalizing s chars with
  | nil => exact ⟨s, chars, rfl, h⟩
  | cons t ticks ih =>
      obtain ⟨s1, hstep, hinv⟩ := step_inv t h hfuel
      obtain ⟨s', chars', hrun, hinv'⟩ := ih hinv
      exact ⟨s', chars', by simp only [run, hstep, hrun], hinv'⟩

/-- A visible character is one of the screen, in the cell where it is printed. -/
theorem onScreen_iff {chars : List Int} {d : Draw} :
    OnScreen chars d ↔ ∃ j char, Visible (terminal chars) j char ∧
    d = cellDraw (terminal chars) j char := by
  have hlength := length_text (terminal chars)
  constructor
  · rintro ⟨row, col, char, hcell, hlf, hspace, rfl⟩
    obtain ⟨hrow, hle, hcol, htext⟩ := (Terminal.cell?_eq_some_iff lfChar (terminal chars) hlf).mp hcell
    refine ⟨_, char, ⟨htext, ?_, hlf, hspace⟩, ?_⟩
    · rw [firstCell]
      have hmul := Nat.mul_le_mul_left 70
        (by omega : (terminal chars).lines.length - min (terminal chars).lines.length 37 ≤
          (terminal chars).lines.length - row)
      omega
    · rw [cellDraw]
      congr 2 <;> omega
  · rintro ⟨j, char, hvisible, rfl⟩
    have hj := (List.getElem?_eq_some_iff.mp hvisible.cell).1
    have hcurrent := (terminal chars).current_lt
    have hfirst := hvisible.first
    have hcell := hvisible.cell
    rw [firstCell] at hfirst
    refine ⟨(terminal chars).lines.length - j / 70, j % 70, char, ?_,
      hvisible.ne_lf, hvisible.ne_space, ?_⟩
    · rw [Terminal.cell?_eq_some_iff lfChar _ hvisible.ne_lf]
      refine ⟨by omega, by omega, by omega, ?_⟩
      rw [← hcell]
      congr 1
      omega
    · rw [cellDraw]
      congr 2
      omega

theorem Inv.shows {chars : List Int} (h : Inv c chars s) :
    (∀ d ∈ sinceClear s.draws, OnScreen chars d) ∧
      (s.point = .resetLoop ∨ s.printY > s.bufferY → ∀ d, d ∈ sinceClear s.draws ↔
        OnScreen chars d) := by
  rw [Inv] at h
  split_ifs at h with hpoint
  · obtain ⟨rfl, hshown⟩ := h
    rw [hshown]
    have hnone (d : Draw) : ¬ OnScreen [] d := by
      rw [onScreen_iff]
      rintro ⟨j, char, hvisible, -⟩
      have hcell := hvisible.cell
      simp [terminal, Terminal.empty, Terminal.text] at hcell
    exact ⟨by simp, fun _ d => by simp [hnone d]⟩
  · obtain ⟨next, h⟩ := h
    have hsound : ∀ d ∈ sinceClear s.draws, OnScreen chars d :=
      fun d hd => onScreen_iff.mpr (h.drawn.sound d hd)
    refine ⟨hsound, fun hdone d => ⟨hsound d, fun hd => ?_⟩⟩
    obtain ⟨j, char, hvisible, rfl⟩ := onScreen_iff.mp hd
    -- the cell behind `next` is the first one of the screen, or above it
    have hY : ¬ s.printY ≤ s.bufferY := not_le.mpr (hdone.resolve_left hpoint)
    rw [h.cursor.le_iff h.holds, not_le] at hY
    exact h.drawn.drawn j char hvisible (hY.trans_le (by exact_mod_cast hvisible.first))

/-- In every run the display shows characters of the screen only, and all of them when the redraw is
complete. -/
theorem run_showsText (hfuel : c + 2660 ≤ fuel) (ticks : List (Tick c)) (s0 : Scrolling) :
    ∃ s chars, run fuel ticks s0.start [] = some (s, chars) ∧
    (∀ d ∈ sinceClear s.draws, OnScreen chars d) ∧
      (s.point = .resetLoop ∨ s.printY > s.bufferY → ∀ d, d ∈ sinceClear s.draws ↔
        OnScreen chars d) := by
  obtain ⟨s, chars, hrun, hinv⟩ := run_inv hfuel ticks (inv_reset s0)
  exact ⟨s, chars, hrun, hinv.shows⟩

/-- The display is turned on, receives two lines and draws them again when a third one begins. -/
theorem run_showsText_lines :
    let tick (text : List Int) (rxRead rxWrite : Fin 254) : Tick 253 :=
      { displayPower := true, cpuPower := true, bufferSize := 0
        uart := fun i => if i = 510 then rxRead else if i = 511 then rxWrite
        else text.getD (i - 256).toNat 0
        rxRead_range := by have := rxRead.isLt; simp; omega
        rxWrite_range := by have := rxWrite.isLt; simp; omega }
    ∃ s chars, run 3000 [tick [] 0 0, tick [72, 105, 10, 79, 75, 10] 0 6,
      tick [72, 105, 10, 79, 75, 10, 33] 6 7]
        (Scrolling.start ⟨.main, fun _ => .null, fun _ => .null, fun _ => .null, 0, .null, 0,
          0, .null, 0, 0, []⟩) [] =
          some (s, chars) ∧ (∀ d ∈ sinceClear s.draws, OnScreen chars d) ∧
      (s.point = .resetLoop ∨ s.printY > s.bufferY → ∀ d, d ∈ sinceClear s.draws ↔ OnScreen chars d) :=
  run_showsText (by decide) _ _

/-! ## The places of the display -/

def Draw.charAt (x y : Int) : Draw → Option Value
  | .print x' y' char => if x' = x ∧ y' = y then some char else none
  | _ => none

/-- The character that the display shows at a place: the last one printed there since `draw clear`.
-/
def shownAt (draws : List Draw) (x y : Int) : Option Value :=
  ((sinceClear draws).filterMap (Draw.charAt x y)).getLast?

theorem Draw.charAt_eq_some {x y : Int} {char : Value} {d : Draw} :
    d.charAt x y = some char ↔ d = .print x y char := by
  cases d with
  | print x' y' char' =>
      simp only [charAt, Draw.print.injEq]
      split_ifs with h
      · simp [h]
      · refine iff_of_false (by simp) ?_
        rintro ⟨rfl, rfl, -⟩
        exact h ⟨rfl, rfl⟩
  | _ => simp [charAt]

theorem mem_of_shownAt {draws : List Draw} {x y : Int} {char : Value}
    (h : shownAt draws x y = some char) : .print x y char ∈ sinceClear draws := by
  obtain ⟨d, hd, hchar⟩ := List.mem_filterMap.mp (List.mem_of_getLast? h)
  rwa [Draw.charAt_eq_some.mp hchar] at hd

/-- Where something is printed, something is shown. -/
theorem exists_shownAt {draws : List Draw} {x y : Int} {char : Value}
    (h : .print x y char ∈ sinceClear draws) : ∃ char', shownAt draws x y = some char' := by
  have hmem : char ∈ (sinceClear draws).filterMap (Draw.charAt x y) :=
    List.mem_filterMap.mpr ⟨_, h, Draw.charAt_eq_some.mpr rfl⟩
  exact ⟨_, List.getLast?_eq_getLast_of_ne_nil (List.ne_nil_of_mem hmem)⟩

/-- A place of the screen has one character. -/
theorem OnScreen.unique {chars : List Int} {x y : Int} {char char' : Value}
    (h : OnScreen chars (.print x y char)) (h' : OnScreen chars (.print x y char')) :
    char = char' := by
  obtain ⟨row, col, c, hcell, -, -, heq⟩ := h
  obtain ⟨row', col', c', hcell', -, -, heq'⟩ := h'
  obtain ⟨hx, hy, rfl⟩ := Draw.print.inj heq
  obtain ⟨hx', hy', rfl⟩ := Draw.print.inj heq'
  obtain rfl : row = row' := by omega
  obtain rfl : col = col' := by omega
  rw [Option.some.inj (hcell.symm.trans hcell')]

/-- Whenever the redraw is complete, each place of the display shows the character that the
reference terminal has there, and no place shows another one. -/
theorem run_shownAt (hfuel : c + 2660 ≤ fuel) (ticks : List (Tick c)) (s0 : Scrolling) :
    ∃ s chars, run fuel ticks s0.start [] = some (s, chars) ∧
      (s.point = .resetLoop ∨ s.printY > s.bufferY → ∀ x y char,
        shownAt s.draws x y = some char ↔ OnScreen chars (.print x y char)) := by
  obtain ⟨s, chars, hrun, hinv⟩ := run_inv hfuel ticks (inv_reset s0)
  refine ⟨s, chars, hrun, fun hdone x y char => ?_⟩
  obtain ⟨hsound, hshown⟩ := hinv.shows
  have hiff := hshown hdone
  constructor
  · exact fun h => hsound _ (mem_of_shownAt h)
  · intro h
    obtain ⟨char', hchar'⟩ := exists_shownAt ((hiff _).mpr h)
    rw [h.unique (hsound _ (mem_of_shownAt hchar'))]
    exact hchar'

/-- A line that is full and a line feed, in two ticks. -/
theorem run_shownAt_wrap :
    let tick (text : List Int) (rxRead rxWrite : Fin 254) : Tick 253 :=
      { displayPower := true, cpuPower := true, bufferSize := 0
        uart := fun i => if i = 510 then rxRead else if i = 511 then rxWrite
        else text.getD (i - 256).toNat 0
        rxRead_range := by have := rxRead.isLt; simp; omega
        rxWrite_range := by have := rxWrite.isLt; simp; omega }
    ∃ s chars, run 3000 [tick [] 0 0, tick (List.replicate 71 65) 0 71,
        tick (List.replicate 71 65 ++ [10, 66]) 71 73]
        (Scrolling.start ⟨.main, fun _ => .null, fun _ => .null, fun _ => .null, 0, .null, 0,
          0, .null, 0, 0, []⟩) [] = some (s, chars) ∧
      (s.point = .resetLoop ∨ s.printY > s.bufferY → ∀ x y char,
        shownAt s.draws x y = some char ↔ OnScreen chars (.print x y char)) :=
  run_shownAt (by decide) _ _

end Mlogv32.Display
