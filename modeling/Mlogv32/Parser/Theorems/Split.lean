import Mlogv32.Parser.Lemmas.Quiet
import Mlogv32.Parser.Labels

/-!
# The statements that the parser finds

`parse_mlog` finds the statements and labels of the game where they stand, exactly for the texts
that are `Clear` (`matchesGame_iff`).
-/

namespace Mlogv32.Parser

/-! ## Items -/

def pieceExtents (is : List Item) : List Extent := (is.filterMap Item.piece?).map Piece.extent

structure ClearItems (is : List Item) : Prop where
  pieces : ∀ p ∈ is.filterMap Item.piece?, p.Plain
  comments : ∀ c ∈ is.filterMap Item.comment?, quiet false c = true

@[simp] theorem pieceExtents_piece (p : Piece) (is : List Item) :
    pieceExtents (.piece p :: is) = p.extent :: pieceExtents is := rfl

@[simp] theorem pieceExtents_comment (c : List Char) (is : List Item) :
    pieceExtents (.comment c :: is) = pieceExtents is := rfl

theorem clearItems_piece {p : Piece} {is : List Item} :
    ClearItems (.piece p :: is) ↔ p.Plain ∧ ClearItems is := by
  constructor
  · rintro ⟨hpieces, hcomments⟩
    exact ⟨hpieces p (by simp [Item.piece?]), fun q hq =>
      hpieces q (List.mem_cons_of_mem _ hq), hcomments⟩
  · rintro ⟨hp, hpieces, hcomments⟩
    refine ⟨fun q hq => ?_, hcomments⟩
    rcases List.mem_cons.mp hq with rfl | hq
    · exact hp
    · exact hpieces q hq

theorem clearItems_comment {c : List Char} {is : List Item} :
    ClearItems (.comment c :: is) ↔ quiet false c = true ∧ ClearItems is := by
  constructor
  · rintro ⟨hpieces, hcomments⟩
    exact ⟨hcomments c (by simp [Item.comment?]), hpieces, fun q hq =>
      hcomments q (List.mem_cons_of_mem _ hq)⟩
  · rintro ⟨hc, hpieces, hcomments⟩
    refine ⟨hpieces, fun q hq => ?_⟩
    rcases List.mem_cons.mp hq with rfl | hq
    · exact hc
    · exact hcomments q hq

theorem le_start {m : Reading} {cur : Current} {pos lower : Nat} {s : List Char} {p : Piece}
    (hp : Item.piece p ∈ items m cur pos s) (hcur : ∀ start cs, cur = some (start, cs) → lower ≤ start)
    (hpos : lower ≤ pos) : lower ≤ p.start := by
  have hflush {cur : Current} {rest : List Char} (hp : Item.piece p ∈ cur.flush rest)
      (hcur : ∀ start cs, cur = some (start, cs) → lower ≤ start) : lower ≤ p.start := by
    cases cur with
    | none => simp [Current.flush] at hp
    | some r =>
        simp only [Current.flush, List.mem_singleton, Item.piece.injEq] at hp
        exact hp ▸ hcur r.1 r.2 rfl
  have hpush {cur : Current} {pos : Nat} {c : Char} (hpos : lower ≤ pos)
      (hcur : ∀ start cs, cur = some (start, cs) → lower ≤ start) :
      ∀ start cs, cur.push pos c = some (start, cs) → lower ≤ start := by
    intro start cs h
    cases cur with
    | some r =>
        cases h
        exact hcur r.1 r.2 rfl
    | none =>
        simp only [Current.push] at h
        split_ifs at h
        cases h
        exact hpos
  induction s generalizing m cur pos with
  | nil =>
      cases m <;> exact hflush (by simpa only [items] using hp) hcur
  | cons c s ih =>
      have hnone : ∀ start cs, (none : Current) = some (start, cs) → lower ≤ start :=
        fun _ _ h => by cases h
      cases m with
      | comment =>
          simp only [items] at hp
          split_ifs at hp <;> exact ih hp hnone (by omega)
      | string => exact ih hp (hpush hpos hcur) (by omega)
      | code =>
          simp only [items] at hp
          split_ifs at hp with hsep hhash hquote
          · rcases List.mem_append.mp hp with hp | hp
            · exact hflush hp hcur
            · exact ih hp hnone (by omega)
          · rcases List.mem_append.mp hp with hp | hp
            · rcases List.mem_append.mp hp with hp | hp
              · exact hflush hp hcur
              · cases cur <;> simp [Current.comment] at hp
            · exact ih hp hnone (by omega)
          · exact ih hp (hpush hpos hcur) (by omega)
          · exact ih hp (hpush hpos hcur) (by omega)

/-! ## A statement or a label -/

section Node
variable {name s t : List Char} {xs : List Lexeme}

theorem trimEnd_name (hname : ∀ c ∈ name, isTokenChar c = true) (hnil : name ≠ []) :
    trimEnd name = name := by
  rw [← List.dropLast_append_getLast hnil]
  refine trimEnd_of_last ?_
  rw [← Bool.not_eq_true, isBlank_iff, isTokenChar_iff.mp (hname _ (List.getLast_mem hnil))]
  simp

/-- What the game makes of the text that the parser takes for a node. -/
theorem piece_iff {pos : Nat} {isLabel : Bool} {stop : Nat} (hname : ∀ c ∈ name, isTokenChar c = true)
    (h : ArgsRead s xs t) (hstart : ∀ c, s.head? = some c → isTokenChar c = false)
    (hstop : stop = pos + (trimEnd (name ++ texts xs)).length)
    (hlabel : trimEnd (name ++ texts xs) ≠ [':'] →
      Piece.isLabel ⟨pos, name ++ texts xs, t⟩ = isLabel)
    (hcolon : trimEnd (name ++ texts xs) = [':'] → isLabel = false) :
    ⟨isLabel, some pos, some stop⟩ = Piece.extent ⟨pos, (cut false (name ++ s)).1,
      (cut false (name ++ s)).2⟩ ↔
      Piece.Plain ⟨pos, (cut false (name ++ s)).1, (cut false (name ++ s)).2⟩ ∧
        (cut false (name ++ s)).1 = name ++ texts xs ∧ (cut false (name ++ s)).2 = t := by
  have hcut := h.cut_iff hname hstart
  have happend := cut_append false (name ++ s)
  obtain ⟨hs, _⟩ := h.texts
  have hrest (hw : (cut false (name ++ s)).1 = name ++ texts xs) : (cut false (name ++ s)).2 = t := by
    rw [hw] at happend
    nth_rewrite 2 [hs] at happend
    rw [← List.append_assoc] at happend
    exact List.append_cancel_left happend
  unfold Piece.Plain
  rw [happend, ← hcut]
  constructor
  · intro heq
    simp only [Piece.extent, Extent.mk.injEq, Option.some.injEq, true_and, hstop,
      Nat.add_left_cancel_iff] at heq
    have hw : name ++ texts xs = (cut false (name ++ s)).1 :=
      eq_of_trimEnd (t := t) (by rw [happend, List.append_assoc, ← hs]) h.ends (cut_ends false _) heq.2
    refine ⟨⟨fun hc => ?_, hw.symm⟩, hw.symm, hrest hw.symm⟩
    have htrue : Piece.isLabel ⟨pos, (cut false (name ++ s)).1, (cut false (name ++ s)).2⟩ = true := by
      simp [Piece.isLabel, hc, show isBlank ':' = false by decide]
    rw [htrue, hcolon (hw ▸ hc)] at heq
    cases heq.1
  · rintro ⟨⟨hc, _⟩, hw, ht⟩
    simp only [hw, ht] at hc ⊢
    simp [Piece.extent, hlabel hc, hstop]

/-- The game has no label where the grammar has a statement, a lone colon apart. -/
theorem not_isLabel {pos : Nat} (hname : ∀ c ∈ name, isTokenChar c = true) (hnil : name ≠ [])
    (hstart : s.takeWhile isTokenChar = []) (hlongest : Terminal.LABEL.longest (name ++ s) = none)
    (h : ArgsRead s xs t) (hcolon : trimEnd (name ++ texts xs) ≠ [':']) :
    Piece.isLabel ⟨pos, name ++ texts xs, t⟩ = false := by
  rw [← Bool.not_eq_true]
  intro hlabel
  simp only [Piece.isLabel, Bool.and_eq_true, decide_eq_true_eq, Bool.not_eq_true',
    List.any_eq_false] at hlabel
  obtain ⟨hlast, hblank⟩ := hlabel
  by_cases hblanks : ∀ c ∈ texts xs, isBlank c = true
  · rw [trimEnd_append_blanks hblanks, trimEnd_name hname hnil] at hlast hcolon
    obtain ⟨y, rfl⟩ := List.getLast?_eq_some_iff.mp hlast
    have hmatches : Terminal.LABEL.Matches (y ++ [':']) s := by
      refine ⟨y, rfl, ?_, fun c hc => hname c (by simp [hc]), by simp [hstart]⟩
      rintro rfl
      exact hcolon rfl
    rw [Terminal.longest_iff.mpr ⟨rfl, hmatches⟩] at hlongest
    cases hlongest
  · -- the arguments begin with a blank, which is not at the end
    simp only [not_forall] at hblanks
    obtain ⟨d, hd, hblankd⟩ := hblanks
    cases hr : texts xs with
    | nil => simp [hr] at hd
    | cons c r =>
        have hs := h.texts.1
        rw [hr, List.cons_append] at hs
        have hc : isBlank c = true := by
          cases h with
          | done => simp [texts] at hr
          | @step _ l rest xs _ hread harg _ =>
              rw [hs] at hread hstart
              have hcls := Context.read_cls hread
              have htoken : classOf c ≠ .token := by
                intro htoken
                simp [isTokenChar_iff.mpr htoken] at hstart
              rw [isBlank_iff]
              rw [← hcls] at htoken ⊢
              revert harg htoken
              cases l.terminal <;> decide
        rw [hr] at hd hblank
        have hdr : d ∈ r := by
          rcases List.mem_cons.mp hd with rfl | hd
          · exact absurd hc hblankd
          · exact hd
        obtain ⟨r₁, r₂, rfl⟩ := List.append_of_mem hdr
        have hlt := length_lt_trimEnd (w := name ++ c :: r₁) (y := r₂) (by simpa using hblankd)
        have heq : name ++ c :: r₁ ++ d :: r₂ = name ++ c :: (r₁ ++ d :: r₂) := by simp
        rw [heq] at hlt
        have hsub : name ++ [c] <+: trimEnd (name ++ c :: (r₁ ++ d :: r₂)) := by
          refine List.prefix_of_prefix_length_le ⟨r₁ ++ d :: r₂, by simp⟩
            (List.rdropWhile_prefix isBlank (name ++ c :: (r₁ ++ d :: r₂))) ?_
          simp only [List.length_append, List.length_cons, List.length_nil] at hlt ⊢
          omega
        exact hblank c (hsub.subset (by simp)) hc

theorem node_iff {pos stop : Nat} {isLabel : Bool} {es : List Extent}
    (hname : ∀ c ∈ name, isTokenChar c = true)
    (hnil : name ≠ []) (h : ArgsRead s xs t) (hstart : ∀ c, s.head? = some c → isTokenChar c = false)
    (hstop : stop = pos + (trimEnd (name ++ texts xs)).length)
    (hlabel : trimEnd (name ++ texts xs) ≠ [':'] → Piece.isLabel ⟨pos, name ++ texts xs, t⟩ = isLabel)
    (hcolon : trimEnd (name ++ texts xs) = [':'] → isLabel = false)
    (htail : es = pieceExtents (itemsAfter (pos + (name ++ texts xs).length) t) ↔
      ClearItems (itemsAfter (pos + (name ++ texts xs).length) t)) :
    ⟨isLabel, some pos, some stop⟩ :: es = pieceExtents (items .code none pos (name ++ s)) ↔
      ClearItems (items .code none pos (name ++ s)) := by
  have hpiece := piece_iff hname h hstart hstop hlabel hcolon
  obtain ⟨c, y, hcons⟩ := List.exists_cons_of_ne_nil hnil
  have hitems := items_piece (hname c (by simp [hcons])) pos (y ++ s)
  rw [← List.cons_append, ← hcons] at hitems
  rw [hitems, pieceExtents_piece, clearItems_piece, List.cons.injEq]
  constructor
  · rintro ⟨heq, hes⟩
    obtain ⟨hplain, hw, ht⟩ := hpiece.mp heq
    rw [hw, ht] at hes
    rw [hw, ht] at hplain ⊢
    exact ⟨hplain, htail.mp hes⟩
  · rintro ⟨hplain, hclear⟩
    have hw : (cut false (name ++ s)).1 = name ++ texts xs := by
      have hargs := hplain.2
      rw [cut_append] at hargs
      exact (h.cut_iff hname hstart).mpr hargs
    have ht : (cut false (name ++ s)).2 = t := by
      have happend := cut_append false (name ++ s)
      rw [hw] at happend
      nth_rewrite 2 [h.texts.1] at happend
      rw [← List.append_assoc] at happend
      exact List.append_cancel_left happend
    have heq := hpiece.mpr ⟨hplain, hw, ht⟩
    rw [hw, ht] at hclear heq ⊢
    exact ⟨heq, htail.mpr hclear⟩

end Node

/-! ## The text -/

theorem head?_of_takeWhile {s : List Char} (h : s.takeWhile isTokenChar = []) :
    ∀ c, s.head? = some c → isTokenChar c = false := by
  intro c hc
  cases s with
  | nil => cases hc
  | cons d s =>
      cases hc
      by_contra htoken
      simp only [Bool.not_eq_false] at htoken
      simp [htoken] at h

section Step
variable {s rest : List Char} {l : Lexeme} {ls : List Lexeme}

/-- From a position on, the parser finds what the game finds, exactly if the rest of the text is
clear. -/
def SameExtents (pos : Nat) (s : List Char) (ls : List Lexeme) : Prop :=
  extents pos ls = pieceExtents (items .code none pos s) ↔ ClearItems (items .code none pos s)

theorem comment_extents
    (hshort : ∀ {s ls'}, Lexes .line s ls' → ls'.length ≤ ls.length → ∀ pos, SameExtents pos s ls')
    (hread : Context.line.read s = some (l, rest)) (h : l.terminal = .COMMENT)
    (hls : Lexes .line rest ls) (pos : Nat) : SameExtents pos s (l :: ls) := by
  obtain ⟨hs, hmatches⟩ := Context.read_matches hread
  rw [h] at hmatches
  obtain ⟨y, hy, hline, hrest⟩ := hmatches
  have hextents : extents pos (l :: ls) = extents (pos + l.text.length) ls := by
    unfold extents
    rw [build_skip (.inr h)]
  have hcons : s = '#' :: (y ++ rest) := by rw [hs, hy]; rfl
  have hlength : pos + 1 + y.length = pos + l.text.length := by
    rw [hy, List.length_cons]
    omega
  have hdirective : directivePrefix.isPrefixOf ('#' :: (y ++ rest)) = false := by
    rw [← Bool.not_eq_true, List.isPrefixOf_iff_prefix, ← hcons]
    intro hp
    have hnone : Terminal.DIRECTIVE.longest s = none :=
      Context.read_before hread (by rw [h]; decide)
    simp [Terminal.longest, hp] at hnone
  have hquiet : quiet false ('#' :: (y ++ rest)) = true := by simp [quiet, hdirective]
  unfold SameExtents
  rw [hcons, items_hash, items_comment_append hline, items_comment_end hrest, pieceExtents_comment,
    clearItems_comment, quiet_takeWhile, hlength, hextents, show _ ↔ _ from hshort hls le_rfl _]
  simp [hquiet]

/-- A directive reads statements to the end of its line, where the game has a comment. -/
theorem directive_extents
    (hshort : ∀ {s ls'}, Lexes .line s ls' → ls'.length ≤ ls.length → ∀ pos, SameExtents pos s ls')
    (hread : Context.line.read s = some (l, rest)) (h : l.terminal = .DIRECTIVE)
    (hls : Lexes .directive rest ls) (pos : Nat) : SameExtents pos s (l :: ls) := by
  have hspec := directive_quiet (fun hs hle => hs.quietSpec (Nat.le_refl _)) hread h hls pos
  obtain ⟨hs, hmatches⟩ := Context.read_matches hread
  rw [h] at hmatches
  have hcons : s = '#' :: (directivePrefix.tail ++ rest) := by rw [hs, hmatches]; rfl
  have hstep : items .comment none (pos + 1) (directivePrefix.tail ++ rest) =
      items .comment none pos s := by
    rw [hcons]
    simp [items]
  unfold SameExtents
  rw [hcons, items_hash, pieceExtents_comment, clearItems_comment, quiet_takeWhile, ← hcons, hstep]
  cases hquiet : quiet false s with
  | true =>
      obtain ⟨pos', rest', ls', hls', hlength, hes, hitems⟩ := hspec.quiet hquiet
      rw [hitems, hes, show _ ↔ _ from hshort hls' hlength _]
      simp
  | false =>
      obtain ⟨e, es, p, hes, hp, hlt⟩ := hspec.loud hquiet
      simp only [Bool.false_eq_true, false_and, iff_false]
      intro heq
      -- the node of the parser stands on the line, and the pieces of the game stand after it
      rw [hes] at heq
      have hhead : e ∈ pieceExtents (items .comment none pos s) := by simp [← heq]
      obtain ⟨q, hq, rfl⟩ := List.mem_map.mp hhead
      obtain ⟨i, hi, hiq⟩ := List.mem_filterMap.mp hq
      have hi' : i = .piece q := by
        cases i with
        | piece _ => rw [Option.some.inj hiq]
        | comment _ => cases hiq
      have hline : s = s.takeWhile (· ≠ '\n') ++ s.dropWhile (· ≠ '\n') :=
        List.takeWhile_append_dropWhile.symm
      have hnewline : '\n' ∉ s.takeWhile (· ≠ '\n') := by
        intro hmem
        simpa using of_mem_takeWhile hmem
      rw [hi', hline, items_comment_append hnewline] at hi
      have := le_start hi (fun _ _ h => by cases h) (Nat.le_refl _)
      simp only [Piece.extent, Option.some.injEq] at hp
      omega

theorem statement_extents
    (hshort : ∀ {s ls'}, Lexes .line s ls' → ls'.length ≤ ls.length → ∀ pos, SameExtents pos s ls')
    (hread : Context.line.read s = some (l, rest)) (h : l.terminal = .TOKEN)
    (hls : Lexes .statement rest ls) (pos : Nat) : SameExtents pos s (l :: ls) := by
  have hlongest : Terminal.LABEL.longest s = none :=
    Context.read_before hread (by rw [h]; decide)
  obtain ⟨hs, hmatches⟩ := Context.read_matches hread
  rw [h] at hmatches
  obtain ⟨hnil, hname, hstart⟩ := hmatches
  obtain ⟨xs, t, ls', rfl, hargs, hls'⟩ := Lexes.args hls
  obtain ⟨pos', rest', ls'', hlexes, hlength, hbuild, hitems⟩ := hls'.ending (.inl rfl) hargs.ends
    (pos + l.text.length + (texts xs).length)
  rw [hs] at hlongest
  have hstop := hargs.stop pos l.text (l.token pos) (by simp [Lexeme.token, trimEnd_name hname hnil])
  have hextents : extents pos (l :: (xs ++ ls')) =
      ⟨false, some pos, some (pos + (trimEnd (l.text ++ texts xs)).length)⟩ :: extents pos' ls'' := by
    unfold extents
    rw [build_statement (Context.read_ctx hread) h, hargs.build, hbuild]
    simp only [List.append_nil, List.filterMap_cons, ASTNode.extent?]
    rw [hstop]
    rfl
  have hlength' : pos + (l.text ++ texts xs).length = pos + l.text.length + (texts xs).length := by
    rw [List.length_append, Nat.add_assoc]
  unfold SameExtents
  rw [hs, hextents]
  refine node_iff hname hnil hargs (head?_of_takeWhile hstart) rfl
    (not_isLabel hname hnil hstart hlongest hargs) (fun _ => rfl) ?_
  rw [hlength', hitems]
  exact hshort hlexes (by rw [List.length_append]; omega) pos'

theorem label_extents
    (hshort : ∀ {s ls'}, Lexes .line s ls' → ls'.length ≤ ls.length → ∀ pos, SameExtents pos s ls')
    (hread : Context.line.read s = some (l, rest)) (h : l.terminal = .LABEL)
    (hls : Lexes .label rest ls) (pos : Nat) : SameExtents pos s (l :: ls) := by
  obtain ⟨hs, hmatches⟩ := Context.read_matches hread
  rw [h] at hmatches
  obtain ⟨y, hy, hnil, htoken, _⟩ := hmatches
  obtain ⟨blanks, t, ls', rfl, hblanks, hends, hls', hlength, hbuild⟩ :=
    Lexes.afterLabel hls (pos + l.text.length)
  obtain ⟨pos', rest', ls'', hlexes, hlength', hbuild', hitems⟩ := hls'.ending (.inr (.inl rfl)) hends
    (pos + l.text.length + blanks.length)
  obtain ⟨xs, hargs, htexts⟩ := argsRead_blanks hblanks hends
  have htrim : trimEnd (l.text ++ texts xs) = l.text := by
    rw [htexts, trimEnd_append_blanks hblanks, hy, trimEnd_of_last (by decide)]
  have hextents : extents pos (l :: ls) =
      ⟨true, some pos, some (pos + l.text.length)⟩ :: extents pos' ls'' := by
    unfold extents
    rw [build_label (Context.read_ctx hread) h, hbuild, hbuild']
    rfl
  have hname : ∀ c ∈ l.text, isTokenChar c = true := by
    intro c hc
    rw [hy, List.mem_append, List.mem_singleton] at hc
    rcases hc with hc | rfl
    · exact htoken c hc
    · decide
  have hstart : ∀ c, (blanks ++ t).head? = some c → isTokenChar c = false := by
    intro c hc
    rw [← Bool.not_eq_true, isTokenChar_iff]
    cases blanks with
    | nil =>
        cases t with
        | nil => cases hc
        | cons d t =>
            cases hc
            rcases isEnd_iff.mp (hends _ t rfl) with hc | hc <;> simp [hc]
    | cons d blanks =>
        cases hc
        simp [isBlank_iff.mp (hblanks c (by simp))]
  have hlength'' : pos + (l.text ++ texts xs).length = pos + l.text.length + blanks.length := by
    rw [List.length_append, htexts, Nat.add_assoc]
  have hcolon : l.text ≠ [':'] := by
    rw [hy]
    intro heq
    rw [List.append_eq_singleton_iff] at heq
    rcases heq with ⟨hy, _⟩ | ⟨_, h⟩
    · exact hnil hy
    · cases h
  unfold SameExtents
  rw [hs, hextents]
  refine node_iff hname (by rw [hy]; simp) hargs hstart (by rw [htrim]) (fun _ => ?_)
    (fun heq => absurd (htrim ▸ heq) hcolon) ?_
  · simp only [Piece.isLabel, htrim, Bool.and_eq_true, decide_eq_true_eq, Bool.not_eq_true',
      List.any_eq_false]
    refine ⟨by rw [hy]; simp, fun c hc => ?_⟩
    rw [isBlank_iff, isTokenChar_iff.mp (hname c hc)]
    simp
  · rw [hlength'', hitems]
    exact hshort hlexes (by omega) pos'

end Step

/-- The induction is on the number of lexemes: one item of the text is read at a time, up to where
the parser and the game are both at the beginning of a statement. -/
theorem Lexes.extents_iff :
    ∀ {n : Nat} {s : List Char} {ls : List Lexeme}, ls.length ≤ n → Lexes .line s ls →
    ∀ pos, SameExtents pos s ls := by
  intro n
  induction n with
  | zero =>
      intro s ls hn h pos
      cases h with
      | nil => exact ⟨fun _ => ⟨by simp [items, Current.flush], by simp [items, Current.flush]⟩,
          fun _ => rfl⟩
      | cons => simp at hn
  | succ n ih =>
      intro s ls hn h pos
      cases h with
      | nil => exact ⟨fun _ => ⟨by simp [items, Current.flush], by simp [items, Current.flush]⟩,
          fun _ => rfl⟩
      | @cons _ _ l rest ls hread hls =>
          simp only [List.length_cons, Nat.add_le_add_iff_right] at hn
          have hshort {s : List Char} {ls' : List Lexeme} (h : Lexes .line s ls')
              (hle : ls'.length ≤ ls.length) :=
            ih (hle.trans hn) h
          have hmem := Context.read_mem hread
          obtain ⟨hs, hmatches⟩ := Context.read_matches hread
          cases hterminal : l.terminal with
          | WS =>
              rw [hterminal] at hmatches hls
              have hextents : extents pos (l :: ls) = extents (pos + l.text.length) ls := by
                unfold extents
                rw [build_skip (.inl hterminal)]
              unfold SameExtents
              rw [hs, items_blanks hmatches.2.1, hextents]
              exact ih hn hls _
          | NEWLINE =>
              obtain ⟨hlexes, hbuild, hitems⟩ := newline_ending hread hterminal hls pos
              have hextents : extents pos (l :: ls) = extents (pos + l.text.length) ls := by
                unfold extents
                rw [hbuild]
              unfold SameExtents
              rw [hitems, hextents]
              exact ih hn hlexes _
          | COMMENT =>
              rw [hterminal] at hls
              exact comment_extents hshort hread hterminal hls pos
          | DIRECTIVE =>
              rw [hterminal] at hls
              exact directive_extents hshort hread hterminal hls pos
          | TOKEN =>
              rw [hterminal] at hls
              exact statement_extents hshort hread hterminal hls pos
          | LABEL =>
              rw [hterminal] at hls
              exact label_extents hshort hread hterminal hls pos
          | STRING | LABEL_REF | directiveName =>
              rw [hterminal] at hmem
              exact absurd hmem (by decide)

/-- For a text that `parse_mlog` accepts, its statements and labels are those of the game, at the
same places, exactly if the text is `Clear`. -/
theorem matchesGame_iff {text : String} {ast : AST} (h : parseMlog text = some ast) :
    ast.filterMap ASTNode.extent? = (pieces text.toList).map Piece.extent ↔ Clear text.toList := by
  obtain ⟨ls, hls, rfl⟩ := parseMlog_iff.mp h
  have hiff := Lexes.extents_iff (Nat.le_refl _) hls 0
  exact hiff.trans ⟨fun hc => ⟨hc.pieces, hc.comments⟩, fun hc => ⟨hc.pieces, hc.comments⟩⟩

end Mlogv32.Parser
