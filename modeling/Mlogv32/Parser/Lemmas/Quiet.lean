import Mlogv32.Parser.Lemmas.Build

/-!
# Lines with a directive

The game takes a line that begins with a directive for a comment, and the grammar goes on after a
`;`. The two agree if nothing but separators, directives and a comment follows (`directive_quiet`).
-/

namespace Mlogv32.Parser

/-! ## quiet -/

theorem quiet_append {w : List Char} (hw : ∀ c ∈ w, isEnd c = false) (t : List Char) :
    quiet true (w ++ t) = quiet true t := by
  induction w with
  | nil => rfl
  | cons c w ih =>
      have hc := hw c (by simp)
      have hne (d : Char) (hd : isEnd d = true) : c ≠ d := by
        rintro rfl
        simp [hc] at hd
      simp [quiet, hne '\n' (by decide), hne '#' (by decide), hne ';' (by decide),
        ih fun d hd => hw d (by simp [hd])]

theorem quiet_newline (b : Bool) (s : List Char) : quiet b ('\n' :: s) = true := by
  cases b <;> simp [quiet]

theorem quiet_semicolon (b : Bool) (s : List Char) : quiet b (';' :: s) = quiet false s := by
  cases b <;> simp [quiet]

theorem quiet_blanks {a : List Char} (ha : ∀ c ∈ a, isBlank c = true) (s : List Char) :
    quiet false (a ++ s) = quiet false s := by
  induction a with
  | nil => rfl
  | cons c a ih =>
      have hc := ha c (by simp)
      have hne (d : Char) (hd : isBlank d = false) : c ≠ d := by
        rintro rfl
        simp [hc] at hd
      simp [quiet, hne '\n' (by decide), hne '#' (by decide), hc, ih fun d hd => ha d (by simp [hd])]

theorem quiet_token {c : Char} (hc : classOf c = .token) (s : List Char) :
    quiet false (c :: s) = false := by
  have hne (d : Char) (hd : classOf d ≠ .token) : c ≠ d := by
    rintro rfl
    exact hd hc
  have hblank : isBlank c = false := by simp [← Bool.not_eq_true, isBlank_iff, hc]
  simp [quiet, hne '\n' (by decide), hne '#' (by decide), hne ';' (by decide), hblank]

theorem directivePrefix_takeWhile {s : List Char} :
    directivePrefix.isPrefixOf (s.takeWhile (· ≠ '\n')) = directivePrefix.isPrefixOf s := by
  rw [Bool.eq_iff_iff, List.isPrefixOf_iff_prefix, List.isPrefixOf_iff_prefix]
  constructor
  · intro h
    exact h.trans (List.takeWhile_prefix _)
  · rintro ⟨r, rfl⟩
    have hline : directivePrefix.all (· ≠ '\n') = true := by decide
    rw [takeWhile_append_of_all (List.all_eq_true.mp hline)]
    exact List.prefix_append _ _

theorem quiet_takeWhile (b : Bool) (s : List Char) : quiet b (s.takeWhile (· ≠ '\n')) = quiet b s := by
  induction s generalizing b with
  | nil => rfl
  | cons c s ih =>
      by_cases hc : c = '\n'
      · subst hc
        rw [quiet_newline]
        cases b <;> rfl
      · have htake : (c :: s).takeWhile (· ≠ '\n') = c :: s.takeWhile (· ≠ '\n') := by simp [hc]
        have hdirective := directivePrefix_takeWhile (s := c :: s)
        rw [htake] at hdirective ⊢
        cases b with
        | true => simp only [quiet, ih]
        | false => simp only [quiet, ih, hdirective]

/-! ## The rest of a line -/

/-- Where the statements and labels of some lexemes stand. -/
def extents (pos : Nat) (ls : List Lexeme) : List Extent := (build pos ls).2.filterMap ASTNode.extent?

/-- A quiet line has no statement or label, and any other line begins with one. -/
structure QuietSpec (b : Bool) (pos : Nat) (v : List Char) (es : List Extent) (n : Nat) : Prop where
  quiet : quiet b v = true → ∃ pos' rest ls', Lexes .line rest ls' ∧
    ls'.length ≤ n ∧ es = extents pos' ls' ∧
    items .comment none pos v = items .code none pos' rest
  loud : Parser.quiet b v = false →
    ∃ e es' p, es = e :: es' ∧ e.start = some p ∧ p < pos + (v.takeWhile (· ≠ '\n')).length

section QuietSpec
variable {b b' : Bool} {pos n m : Nat} {a v rest : List Char} {es : List Extent}
  {l : Lexeme} {ls : List Lexeme}

theorem QuietSpec.mono (h : QuietSpec b pos v es n) (hn : n ≤ m) : QuietSpec b pos v es m where
  quiet := fun hq => by
    obtain ⟨pos', rest, ls', hls, hlength, heq⟩ := h.quiet hq
    exact ⟨pos', rest, ls', hls, Nat.le_trans hlength hn, heq⟩
  loud := h.loud

theorem QuietSpec.shift (ha : '\n' ∉ a) (hquiet : Parser.quiet b (a ++ v) = Parser.quiet b' v)
    (h : QuietSpec b' (pos + a.length) v es n) : QuietSpec b pos (a ++ v) es n where
  quiet := fun hq => by
    rw [items_comment_append ha]
    exact h.quiet (hquiet ▸ hq)
  loud := fun hq => by
    obtain ⟨e, es', p, hes, hp, hlt⟩ := h.loud (hquiet ▸ hq)
    refine ⟨e, es', p, hes, hp, ?_⟩
    rw [takeWhile_append_of_all, List.length_append]
    · omega
    · intro c hc
      simp only [decide_eq_true_eq]
      rintro rfl
      exact ha hc

theorem QuietSpec.separators (ha : ∀ c ∈ a, isSeparator c = true) (hls : Lexes .line rest ls)
    (hlength : ls.length ≤ n) (h : ∀ pos, QuietSpec false pos rest (extents pos ls) n)
    (hb : a = [] → b = false) (pos : Nat) :
    QuietSpec b pos (a ++ rest) (extents (pos + a.length) ls) n := by
  induction a generalizing b pos with
  | nil =>
      cases hb rfl
      exact h pos
  | cons c a ih =>
      have hpos : pos + (c :: a).length = pos + 1 + a.length := by
        rw [List.length_cons]
        omega
      have hrest := fun d hd => ha d (List.mem_cons_of_mem c hd)
      rw [hpos]
      have hc := ha c (by simp)
      simp only [isSeparator, Bool.or_eq_true, decide_eq_true_eq] at hc
      rcases hc with rfl | rfl
      · refine ⟨fun _ => ⟨pos + 1 + a.length, rest, ls, hls, hlength, rfl, ?_⟩, fun hq => ?_⟩
        · rw [← items_separators hrest]
          simp [items]
        · rw [List.cons_append, quiet_newline] at hq
          cases hq
      · exact QuietSpec.shift (a := [';']) (by decide) (quiet_semicolon b _)
          (ih hrest (fun _ => rfl) (pos + 1))

theorem directive_quiet (hshort : ∀ {s ls'}, Lexes .line s ls' → ls'.length ≤ ls.length →
      ∀ pos, QuietSpec false pos s (extents pos ls') ls'.length)
    {s : List Char} (hread : Context.line.read s = some (l, rest)) (h : l.terminal = .DIRECTIVE)
    (hls : Lexes .directive rest ls) (pos : Nat) :
    QuietSpec false pos s (extents pos (l :: ls)) ls.length := by
  obtain ⟨rfl, hmatches⟩ := Context.read_matches hread
  rw [h] at hmatches
  obtain ⟨w, t, ls', rfl, hw, ht, hls', hlength, hbuild⟩ :=
    hls.afterDirective (.inl rfl) (pos + l.text.length)
  have htag : l.text = '#' :: directivePrefix.tail := hmatches
  have hline : '\n' ∉ l.text ++ w := by
    simp only [List.mem_append, not_or]
    refine ⟨by rw [htag]; decide, fun hmem => ?_⟩
    exact absurd (hw _ hmem) (by decide)
  have hquiet : Parser.quiet false (l.text ++ w ++ t) = Parser.quiet true t := by
    have hdirective : directivePrefix.isPrefixOf ('#' :: directivePrefix.tail ++ w ++ t) = true := by
      rw [List.isPrefixOf_iff_prefix, List.append_assoc]
      exact List.prefix_append _ _
    rw [htag]
    simp only [List.cons_append, List.append_assoc] at hdirective ⊢
    simp only [Parser.quiet, hdirective]
    rw [← List.append_assoc, quiet_append]
    · simp
    · intro c hc
      have htail : directivePrefix.tail.all (fun c => !isEnd c) = true := by decide
      rcases List.mem_append.mp hc with hc | hc
      · simpa using List.all_eq_true.mp htail c hc
      · exact hw c hc
  have hextents : extents pos (l :: ls) = extents (pos + (l.text ++ w).length) ls' := by
    unfold extents
    rw [build_directive (Context.read_ctx hread) h, hbuild, List.length_append, Nat.add_assoc]
  rw [hextents, ← List.append_assoc]
  refine QuietSpec.shift hline hquiet ?_
  generalize pos + (l.text ++ w).length = pos
  cases hls' with
  | @cons _ _ l' rest' ls' hread' hls' =>
      cases t with
      | nil => simp [Context.read_nil] at hread'
      | cons c t =>
          simp only [List.length_cons] at hlength
          by_cases hc : c = '#'
          · subst hc
            obtain ⟨l'', rest'', ls'', rfl, _, _, hlexes, hbuild, hitems⟩ :=
              comment_ending (by decide) hread' hls' pos
            simp only [List.length_cons] at hlength
            refine ⟨fun _ => ⟨_, rest'', ls'', hlexes, by omega, by unfold extents; rw [hbuild],
              ?_⟩, fun hq => ?_⟩
            · rw [← hitems]
              simp [items]
            · simp [Parser.quiet] at hq
          · have hclass : classOf c = .separator :=
              (isEnd_iff.mp (ht c t rfl)).resolve_right fun hhash => hc (hash_iff.mpr hhash)
            have hterminal := read_separator hclass hread'
            obtain ⟨hlexes, hbuild, _⟩ := newline_ending hread' hterminal hls' pos
            obtain ⟨hs, hmatches'⟩ := Context.read_matches hread'
            rw [hterminal] at hmatches'
            have hspec :=
              QuietSpec.separators (b := true) hmatches'.2.1 hlexes (n := ls.length) (by omega)
              (fun pos => (hshort hlexes (by omega) pos).mono (by omega)) (fun hnil =>
                absurd hnil hmatches'.1) pos
            rw [hs]
            unfold extents at hspec ⊢
            rw [hbuild]
            exact hspec

theorem Lexes.quietSpec :
    ∀ {n : Nat} {v : List Char} {ls : List Lexeme}, ls.length ≤ n → Lexes .line v ls →
    ∀ pos, QuietSpec false pos v (extents pos ls) ls.length := by
  intro n
  induction n with
  | zero =>
      intro v ls hn h pos
      cases h with
      | nil => exact ⟨fun _ => ⟨pos, [], [], .nil, Nat.le_refl _, rfl, rfl⟩, fun hq => by cases hq⟩
      | cons => simp at hn
  | succ n ih =>
      intro v ls hn h pos
      cases h with
      | nil => exact ⟨fun _ => ⟨pos, [], [], .nil, Nat.le_refl _, rfl, rfl⟩, fun hq => by cases hq⟩
      | @cons _ _ l rest ls hread hls =>
          simp only [List.length_cons, Nat.add_le_add_iff_right] at hn
          have hmem := Context.read_mem hread
          obtain ⟨hv, hmatches⟩ := Context.read_matches hread
          obtain ⟨c, x, htext, hc⟩ := hmatches.cls
          have hnode (hclass : l.terminal.cls = .token)
              (hes : ∃ e es, extents pos (l :: ls) = e :: es ∧ e.start = some pos) :
              QuietSpec false pos v (extents pos (l :: ls)) (l :: ls).length := by
            obtain ⟨e, es, hes, he⟩ := hes
            have hcons : v = c :: (x ++ rest) := by rw [hv, htext]; rfl
            refine ⟨fun hq => ?_, fun _ => ⟨e, es, pos, hes, he, ?_⟩⟩
            · rw [hcons, quiet_token (hc.trans hclass)] at hq
              cases hq
            · have hnewline : c ≠ '\n' := by
                rintro rfl
                rw [hclass] at hc
                exact absurd hc (by decide)
              simp [hcons, hnewline]
          cases hterminal : l.terminal with
          | LABEL =>
              refine hnode (by rw [hterminal]; rfl) ?_
              unfold extents
              rw [build_label (Context.read_ctx hread) hterminal]
              exact ⟨_, _, rfl, rfl⟩
          | TOKEN =>
              refine hnode (by rw [hterminal]; rfl) ?_
              unfold extents
              rw [build_statement (Context.read_ctx hread) hterminal]
              exact ⟨_, _, rfl, rfl⟩
          | DIRECTIVE =>
              have hnext : Context.line.next l.terminal = .directive := by rw [hterminal]; rfl
              rw [hnext] at hls
              exact (directive_quiet (fun hs hle => ih (Nat.le_trans hle hn) hs) hread
                hterminal hls pos).mono (by simp)
          | COMMENT =>
              have hnext : Context.line.next l.terminal = .line := by rw [hterminal]; rfl
              rw [hnext] at hls
              rw [hterminal] at hmatches
              obtain ⟨y, hy, hline, hrest⟩ := hmatches
              refine ⟨fun _ => ⟨pos + l.text.length, rest, ls, hls, by simp, ?_, ?_⟩, fun hq => ?_⟩
              · unfold extents
                rw [build_skip (.inr hterminal)]
              · have hline' : '\n' ∉ l.text := by
                  rw [hy]
                  simpa using hline
                rw [hv, items_comment_append hline', items_comment_end hrest]
              · -- the line begins with a comment, and a directive would have been read as one
                have hno : Terminal.DIRECTIVE.longest v = none :=
                  Context.read_before hread (by rw [hterminal]; decide)
                have hdirective : directivePrefix.isPrefixOf v = false := by
                  rw [← Bool.not_eq_true, List.isPrefixOf_iff_prefix]
                  intro hp
                  simp [Terminal.longest, hp] at hno
                have hcons : v = '#' :: (y ++ rest) := by rw [hv, hy]; rfl
                rw [hcons] at hq hdirective
                simp [Parser.quiet, hdirective] at hq
          | NEWLINE =>
              rw [hterminal] at hmatches
              obtain ⟨hlexes, hbuild, _⟩ := newline_ending hread hterminal hls pos
              have hspec := QuietSpec.separators (b := false) hmatches.2.1 hlexes
                (n := (l :: ls).length) (by simp)
                (fun pos => (ih hn hlexes pos).mono (by simp)) (fun _ => rfl) pos
              rw [hv]
              unfold extents at hspec ⊢
              rw [hbuild]
              exact hspec
          | WS =>
              have hnext : Context.line.next l.terminal = .line := by rw [hterminal]; rfl
              rw [hnext] at hls
              rw [hterminal] at hmatches
              have hline : '\n' ∉ l.text := fun hmem => absurd (hmatches.2.1 _ hmem) (by decide)
              have hspec := (ih hn hls (pos + l.text.length)).mono (m := (l :: ls).length) (by simp)
              rw [hv]
              refine QuietSpec.shift hline (quiet_blanks hmatches.2.1 rest) ?_
              unfold extents at hspec ⊢
              rw [build_skip (.inl hterminal)]
              exact hspec
          | STRING | LABEL_REF | directiveName =>
              rw [hterminal] at hmem
              exact absurd hmem (by decide)

end QuietSpec

end Mlogv32.Parser
