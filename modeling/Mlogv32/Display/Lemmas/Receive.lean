import Mlogv32.Display.Lemmas.Buffer
import Mlogv32.Logic.Ring

/-!
# Receiving text

A round of `uart_loop` puts a character on the terminal that the buffer holds.
-/

namespace Mlogv32.Display
open Mlog Cpu Logic

/-- The terminal of the display. -/
abbrev Term := Terminal Int 70

/-- The buffer holds the text of the terminal. -/
structure Holds (c : Nat) (term : Term) (s : Scrolling) : Prop where
  buffered : Buffered (term.text lfChar) s
  rxRead_range : 0 ≤ s.rxRead ∧ s.rxRead ≤ c
  col : s.bufferWriteCol = term.current.length
  bufferY : s.bufferY = 6 + 13 * min (term.lines.length : Int) 37

variable {c : Nat} {term : Term} {s : Scrolling} {fuel : Nat}

/-- `{ s with .. }` for the fields that `fillLine` writes. -/
def Scrolling.withBuffer (s : Scrolling) (buffer : Proc) (bufferWrite : Value)
    (bufferWriteCol : Int) : Scrolling :=
  { s with buffer := buffer, bufferWrite := bufferWrite, bufferWriteCol := bufferWriteCol }

theorem writeChar_eq (s : Scrolling) (char : Value) :
    s.writeChar char = s.withBuffer (s.writeChar char).buffer (s.writeChar char).bufferWrite
      (s.bufferWriteCol + 1) := rfl

theorem padLf_eq {text : List Int} (h : Buffered text s) {k : Nat}
    (hcol : s.bufferWriteCol + (k + 1) = 70) (hfuel : k < fuel) (char : Int) :
    ∃ buffer bufferWrite, Scrolling.padLf (.num char) fuel s =
      some (s.withBuffer buffer bufferWrite 70) ∧
      Buffered (text ++ List.replicate (k + 1) char) (s.withBuffer buffer bufferWrite 70) := by
  induction k generalizing s text fuel with
  | zero =>
      obtain ⟨fuel, rfl⟩ : ∃ n, fuel = n + 1 := ⟨fuel - 1, by omega⟩
      have hcol' : s.bufferWriteCol + 1 = 70 := by simpa using hcol
      have hwrite := h.writeChar char
      rw [writeChar_eq, hcol'] at hwrite
      refine ⟨_, _, ?_, hwrite⟩
      rw [Scrolling.padLf, writeChar_eq, hcol']
      rfl
  | succ k ih =>
      obtain ⟨fuel, rfl⟩ : ∃ n, fuel = n + 1 := ⟨fuel - 1, by omega⟩
      have hmore : (s.writeChar (.num char)).bufferWriteCol < termWidthChars := by
        change s.bufferWriteCol + 1 < 70
        push_cast at hcol
        omega
      have hrounds : k < fuel := by omega
      obtain ⟨buffer, bufferWrite, hrun, hbuffered⟩ := ih (h.writeChar char)
        (by change s.bufferWriteCol + 1 + (k + 1) = 70; push_cast at hcol; omega) hrounds
      refine ⟨buffer, bufferWrite, ?_, ?_⟩
      · rw [Scrolling.padLf]
        simp only [if_pos hmore, hrun]
        rfl
      · rw [List.append_assoc, List.singleton_append, ← List.replicate_succ] at hbuffered
        exact hbuffered

/-- The column behind a character, before the line ends. -/
theorem fillLine_eq (h : Holds c term s) (hfuel : 70 ≤ fuel) (char : Int) :
    ∃ buffer bufferWrite,
      s.fillLine fuel (.num char) =
        some (s.withBuffer buffer bufferWrite (if char = lfChar then 70 else term.current.length + 1)) ∧
      Buffered ((term.put lfChar char).text lfChar)
        (s.withBuffer buffer bufferWrite (if char = lfChar then 70 else term.current.length + 1)) := by
  have hwrite := h.buffered.writeChar char
  have hlt := term.current_lt
  have hcol := h.col
  by_cases hchar : char = lfChar
  · subst hchar
    rw [Terminal.text_put_lf, if_pos rfl]
    by_cases hfull : term.current.length + 1 = 70
    · have hcol' : s.bufferWriteCol + 1 = 70 := by omega
      rw [writeChar_eq, hcol'] at hwrite
      rw [show 70 - term.current.length = 1 by omega]
      refine ⟨_, _, ?_, hwrite⟩
      rw [Scrolling.fillLine, writeChar_eq, hcol']
      rfl
    · have hmore : ¬ (Value.num lfChar ≠ .num lfChar ∨
          termWidthChars ≤ (s.writeChar (.num lfChar)).bufferWriteCol) := by
        rintro (hne | hle)
        · exact hne rfl
        · change 70 ≤ s.bufferWriteCol + 1 at hle
          omega
      have hrounds : 70 - term.current.length - 2 < fuel := by omega
      obtain ⟨buffer, bufferWrite, hrun, hbuffered⟩ := padLf_eq hwrite
        (by change s.bufferWriteCol + 1 + _ = 70; omega) hrounds lfChar
      refine ⟨buffer, bufferWrite, ?_, ?_⟩
      · rw [Scrolling.fillLine]
        simp only [if_neg hmore, hrun]
        rfl
      · rw [List.append_assoc, List.singleton_append, ← List.replicate_succ,
          show 70 - term.current.length - 2 + 1 + 1 = 70 - term.current.length by omega] at hbuffered
        exact hbuffered
  · rw [writeChar_eq, hcol] at hwrite
    rw [Terminal.text_put lfChar term hchar, if_neg hchar]
    refine ⟨_, _, ?_, hwrite⟩
    have hskip : Value.num char ≠ .num lfChar ∨
        termWidthChars ≤ (s.writeChar (.num char)).bufferWriteCol :=
      .inl fun heq => hchar (Value.num.inj heq)
    rw [Scrolling.fillLine]
    simp only [if_pos hskip]
    rw [← hcol]
    rfl

/-- A round of `uart_loop` receives a character. Without scrolling no line ends. -/
theorem endLine_eq (h : Holds c term s) (hfuel : 70 ≤ fuel) (char : Int) (shouldScroll : Bool) :
    ∃ s', s.fillLine fuel (.num char) = some s' ∧
    Holds c (term.put lfChar char) (s'.endLine shouldScroll).2 ∧
      ((s'.endLine shouldScroll).1 = false →
        shouldScroll = false ∧ (term.put lfChar char).lines.length = term.lines.length) ∧
      (s'.endLine shouldScroll).2.draws = s.draws ∧ (s'.endLine shouldScroll).2.rxRead = s.rxRead ∧
      (s'.endLine shouldScroll).2.point = s.point := by
  obtain ⟨buffer, bufferWrite, hrun, hbuffered⟩ := fillLine_eq h hfuel char
  refine ⟨_, hrun, ?_⟩
  have hlt := term.current_lt
  have hY := h.bufferY
  rcases term.put_length lfChar char with ⟨hends, hlines, hcurrent⟩ | ⟨hmore, hlines, hcurrent⟩
  · have hcol : (if char = lfChar then (70 : Int) else term.current.length + 1) = 70 := by
      split_ifs with hchar
      · rfl
      · have hle := hends.resolve_left hchar
        omega
    rw [hcol] at hbuffered ⊢
    have hend : (s.withBuffer buffer bufferWrite 70).endLine shouldScroll =
        (true,
          { s.withBuffer buffer bufferWrite 70 with
            bufferY := min (s.bufferY + charHeight) maxY
            bufferWriteCol := 0 }) :=
      if_neg (lt_irrefl (70 : Int))
    rw [hend]
    refine ⟨⟨⟨hbuffered.linked, hbuffered.write, hbuffered.cells⟩, h.rxRead_range, ?_, ?_⟩, by simp,
      rfl, rfl, rfl⟩
    · rw [hcurrent]
      rfl
    · change min (s.bufferY + 13) 487 = _
      rw [hlines, hY]
      push_cast
      omega
  · have hchar : char ≠ lfChar := fun heq => hmore (.inl heq)
    have hfull : ¬ 70 ≤ term.current.length + 1 := fun hle => hmore (.inr hle)
    rw [if_neg hchar] at hbuffered ⊢
    have hend : (s.withBuffer buffer bufferWrite (term.current.length + 1)).endLine shouldScroll =
        (shouldScroll, s.withBuffer buffer bufferWrite (term.current.length + 1)) :=
      if_pos (by change (term.current.length + 1 : Int) < 70; omega)
    rw [hend]
    refine ⟨⟨hbuffered, h.rxRead_range, ?_, ?_⟩, fun hflag => ⟨hflag, hlines⟩, rfl, rfl, rfl⟩
    · rw [hcurrent]
      push_cast
      rfl
    · rw [hlines]
      exact hY

/-- The bytes of the FIFO that a tick finds. -/
def Tick.queue (t : Tick c) (rxRead : Int) : List Int :=
  contents c (fun i => t.uart (i + 256)) rxRead (t.uart 511)

theorem uartLoop_eq {t : Tick c} {q : List Int}
    (hring : Ring c (fun i => t.uart (i + 256)) s.rxRead (t.uart 511) q) (hne : q ≠ [])
    (h : Holds c term s) (hfuel : q.length + 70 ≤ fuel) (shouldScroll : Bool) :
    ∃ shouldScroll' s', Scrolling.uartLoop t fuel shouldScroll s = some (shouldScroll', s') ∧
      Holds c (term.write lfChar q) s' ∧
      (shouldScroll' = false → shouldScroll = false ∧
        (term.write lfChar q).lines.length = term.lines.length) ∧
      s'.draws = s.draws ∧ s'.point = s.point := by
  induction q generalizing s term fuel shouldScroll with
  | nil => exact absurd rfl hne
  | cons char q ih =>
      obtain ⟨fuel, rfl⟩ : ∃ n, fuel = n + 1 := ⟨fuel - 1, by simp at hfuel; omega⟩
      rw [List.length_cons] at hfuel
      have hhead : t.uart (s.rxRead + 256) = char := hring.head
      have hpop := hring.pop
      have hmod : opMod (s.rxRead + 1) (c + 1) = (s.rxRead + 1) % (c + 1) := by
        rw [opMod, if_neg (by omega), Int.tmod_eq_emod_of_nonneg (by have := h.rxRead_range; omega)]
      have hread : Holds c term { s with rxRead := (s.rxRead + 1) % (c + 1) } :=
        ⟨⟨h.buffered.linked, h.buffered.write, h.buffered.cells⟩, wrap_range c _, h.col, h.bufferY⟩
      have hline : 70 ≤ fuel := by omega
      have hrounds : q.length + 70 ≤ fuel := by omega
      obtain ⟨s1, hfill, hholds, hscroll, hdraws, hrx, hpoint⟩ :=
        endLine_eq hread hline char shouldScroll
      rw [Scrolling.uartLoop]
      simp only [hhead, hmod, hfill, hrx]
      by_cases hq : q = []
      · subst hq
        have hend : (s.rxRead + 1) % (c + 1) = t.uart 511 := hpop.empty_iff.mpr rfl
        rw [if_neg (by simpa using hend)]
        exact ⟨_, _, rfl, hholds, hscroll, hdraws, hpoint⟩
      · have hmore : (s.rxRead + 1) % (c + 1) ≠ t.uart 511 := fun heq => hq (hpop.empty_iff.mp heq)
        rw [if_pos hmore]
        obtain ⟨flag, s', hrun, hholds', hscroll', hdraws', hpoint'⟩ :=
          ih (by rw [hrx]; exact hpop) hq hholds hrounds (s1.endLine shouldScroll).1
        refine ⟨flag, s', hrun, hholds', fun hflag => ?_, hdraws'.trans hdraws, hpoint'.trans hpoint⟩
        obtain ⟨hflag1, hlines⟩ := hscroll' hflag
        obtain ⟨hflag0, hlines0⟩ := hscroll hflag1
        exact ⟨hflag0, hlines.trans hlines0⟩

end Mlogv32.Display
