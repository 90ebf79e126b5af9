import Mlogv32.Parser.Lemmas.Split

/-!
# The nodes of a line

What `build` makes of the lexemes of a statement, and of what ends it.
-/

namespace Mlogv32.Parser

/-! ## build -/

section Build
variable {l : Lexeme} {ls : List Lexeme} {pos : Nat}

theorem build_skip (h : l.terminal = .WS ∨ l.terminal = .COMMENT) :
    build pos (l :: ls) = build (pos + l.text.length) ls := by
  obtain ⟨ctx, terminal, text⟩ := l
  rcases h with rfl | rfl <;> cases ctx <;> rfl

theorem build_newline (h : l.terminal = .NEWLINE) :
    build pos (l :: ls) = ([], (build (pos + l.text.length) ls).2) := by
  obtain ⟨ctx, terminal, text⟩ := l
  subst h
  cases ctx <;> rfl

theorem build_label (hctx : l.ctx = .line) (h : l.terminal = .LABEL) :
    build pos (l :: ls) = ([], .label (labelToken (l.token pos)) ::
      (build (pos + l.text.length) ls).2) := by
  obtain ⟨ctx, terminal, text⟩ := l
  subst h hctx
  rfl

theorem build_statement (hctx : l.ctx = .line) (h : l.terminal = .TOKEN) :
    build pos (l :: ls) = ([], .statement ⟨l.token pos, (build (pos + l.text.length) ls).1⟩ ::
      (build (pos + l.text.length) ls).2) := by
  obtain ⟨ctx, terminal, text⟩ := l
  subst h hctx
  rfl

theorem build_arg (hctx : l.ctx = .statement) (h : l.terminal ∈ argTerminals) (hws : l.terminal ≠ .WS) :
    build pos (l :: ls) =
      (l.token pos :: (build (pos + l.text.length) ls).1, (build (pos + l.text.length) ls).2) := by
  obtain ⟨ctx, terminal, text⟩ := l
  subst hctx
  cases terminal with
  | STRING | LABEL | LABEL_REF | TOKEN => rfl
  | WS => exact absurd rfl hws
  | DIRECTIVE | directiveName | COMMENT | NEWLINE => simp [argTerminals] at h

/-- A directive has no place among the statements and labels. -/
theorem build_directive (hctx : l.ctx = .line) (h : l.terminal = .DIRECTIVE) :
    (build pos (l :: ls)).2.filterMap ASTNode.extent? =
      (build (pos + l.text.length) ls).2.filterMap ASTNode.extent? := by
  obtain ⟨ctx, terminal, text⟩ := l
  subst h hctx
  simp only [build]
  split <;> rfl

theorem build_directive_arg (hctx : l.ctx = .directive ∨ l.ctx = .directiveArgs) :
    (build pos (l :: ls)).2 = (build (pos + l.text.length) ls).2 := by
  obtain ⟨ctx, terminal, text⟩ := l
  rcases hctx with rfl | rfl <;> cases terminal <;> rfl

end Build

/-! ## Arguments -/

def argTokens : Nat → List Lexeme → List Token
  | _, [] => []
  | pos, l :: xs =>
    if l.terminal = .WS then argTokens (pos + l.text.length) xs
    else l.token pos :: argTokens (pos + l.text.length) xs

theorem ArgsRead.build {s t : List Char} {xs : List Lexeme} (h : ArgsRead s xs t) (pos : Nat)
    (ls : List Lexeme) :
    Parser.build pos (xs ++ ls) =
      (argTokens pos xs ++ (Parser.build (pos + (Parser.texts xs).length) ls).1,
      (Parser.build (pos + (Parser.texts xs).length) ls).2) := by
  induction h generalizing pos with
  | done _ => simp [argTokens, Parser.texts]
  | @step s l rest xs t hread harg _ ih =>
      have hlength : pos + (Parser.texts (l :: xs)).length = pos + l.text.length +
          (Parser.texts xs).length := by
        simp [Parser.texts, Nat.add_assoc]
      rw [List.cons_append, hlength]
      by_cases hws : l.terminal = .WS
      · rw [build_skip (.inl hws), ih]
        simp [argTokens, hws]
      · rw [build_arg (Context.read_ctx hread) harg hws, ih]
        simp [argTokens, hws]

theorem arg_last {t : Terminal} (ht : t ∈ argTerminals) (hws : t ≠ .WS) {a b : List Char}
    (h : t.Matches a b) :
    ∃ x d, a = x ++ [d] ∧ isBlank d = false := by
  cases t with
  | STRING =>
      obtain ⟨x, rfl, _⟩ := h
      exact ⟨'"' :: x, '"', rfl, by decide⟩
  | LABEL_REF =>
      obtain ⟨x, rfl, _⟩ := h
      exact ⟨'%' :: x, '%', rfl, by decide⟩
  | LABEL =>
      obtain ⟨x, rfl, _⟩ := h
      exact ⟨x, ':', rfl, by decide⟩
  | TOKEN =>
      obtain ⟨hnil, hall, _⟩ := h
      refine ⟨a.dropLast, a.getLast hnil, (List.dropLast_append_getLast hnil).symm, ?_⟩
      rw [← Bool.not_eq_true, isBlank_iff, isTokenChar_iff.mp (hall _ (List.getLast_mem hnil))]
      simp
  | WS => exact absurd rfl hws
  | DIRECTIVE | directiveName | COMMENT | NEWLINE => simp [argTerminals] at ht

theorem ArgsRead.stop {s t : List Char} {xs : List Lexeme} (h : ArgsRead s xs t) (start : Nat)
    (pre : List Char) (e : Token) (he : e.endPos = some (start + (trimEnd pre).length)) :
    ((argTokens (start + pre.length) xs).getLast?.getD e).endPos =
      some (start + (trimEnd (pre ++ Parser.texts xs)).length) := by
  induction h generalizing pre e with
  | done _ => simpa [argTokens, Parser.texts] using he
  | @step s l rest xs t hread harg _ ih =>
      obtain ⟨_, hmatches⟩ := Context.read_matches hread
      have hpos : start + pre.length + l.text.length = start + (pre ++ l.text).length := by
        rw [List.length_append, Nat.add_assoc]
      have htexts : pre ++ Parser.texts (l :: xs) = pre ++ l.text ++ Parser.texts xs := by
        simp [Parser.texts]
      rw [htexts]
      simp only [argTokens, hpos]
      by_cases hws : l.terminal = .WS
      · rw [if_pos hws]
        rw [hws] at hmatches
        exact ih (pre ++ l.text) e (by rw [trimEnd_append_blanks hmatches.2.1]; exact he)
      · rw [if_neg hws, List.getLast?_cons]
        obtain ⟨x, d, hx, hd⟩ := arg_last harg hws hmatches
        refine ih (pre ++ l.text) (l.token (start + pre.length)) ?_
        rw [hx, ← List.append_assoc, trimEnd_of_last hd]
        simp [Lexeme.token, hx, Nat.add_assoc]

/-! ## Ends of lines -/

section Endings
variable {l : Lexeme} {s rest : List Char} {ls : List Lexeme}

theorem newline_ending {ctx : Context} (hread : ctx.read s = some (l, rest)) (h : l.terminal = .NEWLINE)
    (hls : Lexes (ctx.next l.terminal) rest ls) (pos : Nat) :
    Lexes .line rest ls ∧ build pos (l :: ls) = ([], (build (pos + l.text.length) ls).2) ∧
      items .code none pos s = items .code none (pos + l.text.length) rest := by
  have hnext : ctx.next l.terminal = .line := by
    rw [h]
    cases ctx <;> rfl
  obtain ⟨rfl, hmatches⟩ := Context.read_matches hread
  rw [h] at hmatches
  exact ⟨hnext ▸ hls, build_newline h, items_separators hmatches.2.1 pos rest⟩

theorem read_hash {ctx : Context} (hctx : ctx ≠ .line) (hread : ctx.read ('#' :: s) = some (l, rest)) :
    l.terminal = .COMMENT := by
  have hcls := Context.read_cls hread
  have hmem := Context.read_mem hread
  have hhash : classOf '#' = .hash := by decide
  rw [hhash] at hcls
  revert hctx hcls hmem
  cases ctx <;> cases l.terminal <;> decide

theorem read_separator {ctx : Context} {c : Char} (hc : classOf c = .separator)
    (hread : ctx.read (c :: s) = some (l, rest)) : l.terminal = .NEWLINE := by
  have hcls := Context.read_cls hread
  rw [hc] at hcls
  revert hcls
  cases l.terminal <;> decide

theorem comment_ending {ctx : Context} (hctx : ctx ≠ .line)
    (hread : ctx.read ('#' :: s) = some (l, rest)) (hls : Lexes (ctx.next l.terminal) rest ls)
    (pos : Nat) :
    ∃ l' rest' ls', ls = l' :: ls' ∧ ctx.read rest = some (l', rest') ∧ l'.terminal = .NEWLINE ∧
      Lexes .line rest' ls' ∧
      build pos (l :: ls) = ([], (build (pos + l.text.length + l'.text.length) ls').2) ∧
      items .comment none (pos + 1) s =
        items .code none (pos + l.text.length + l'.text.length) rest' := by
  have hterminal := read_hash hctx hread
  have hnext : ctx.next l.terminal = ctx := by
    rw [hterminal]
    cases ctx <;> rfl
  rw [hnext] at hls
  obtain ⟨hs, hmatches⟩ := Context.read_matches hread
  rw [hterminal] at hmatches
  obtain ⟨x, hx, hnewline, hrest⟩ := hmatches
  rw [hx, List.cons_append, List.cons.injEq] at hs
  cases hls with
  | nil => exact absurd rfl hctx
  | @cons _ _ l' rest' ls' hread' hls' =>
      have hnl : l'.terminal = .NEWLINE := by
        cases rest with
        | nil => simp [Context.read_nil] at hread'
        | cons c rest =>
            have hc : c = '\n' := by
              by_contra hc
              simp [hc] at hrest
            subst hc
            exact read_separator (by decide) hread'
      obtain ⟨hline, hbuild, hitems⟩ := newline_ending hread' hnl hls' (pos + l.text.length)
      refine ⟨l', rest', ls', rfl, hread', hnl, hline, ?_, ?_⟩
      · rw [build_skip (.inr hterminal), hbuild]
      · have hlength : pos + 1 + x.length = pos + l.text.length := by
          rw [hx, List.length_cons]
          omega
        rw [hs.2, items_comment_append hnewline, items_comment_end hrest, hlength, hitems]

theorem Lexes.ending {ctx : Context} {t : List Char} (h : Lexes ctx t ls)
    (hctx : ctx = .statement ∨ ctx = .label ∨ ctx = .directiveArgs) (ht : Ends t) (pos : Nat) :
    ∃ pos' rest ls', Lexes .line rest ls' ∧ ls'.length < ls.length ∧
    build pos ls = ([], (build pos' ls').2) ∧
      itemsAfter pos t = items .code none pos' rest := by
  have hline : ctx ≠ .line := by
    rcases hctx with rfl | rfl | rfl <;> decide
  cases h with
  | nil => exact absurd rfl hline
  | @cons _ _ l rest ls hread hls =>
      cases t with
      | nil => simp [Context.read_nil] at hread
      | cons c s =>
          by_cases hc : c = '#'
          · subst hc
            obtain ⟨l', rest', ls', rfl, _, _, hlexes, hbuild, hitems⟩ :=
              comment_ending hline hread hls pos
            exact ⟨_, rest', ls', hlexes, by simp, hbuild, by simpa [itemsAfter] using hitems⟩
          · have hclass : classOf c = .separator :=
              (isEnd_iff.mp (ht c s rfl)).resolve_right fun hhash => hc (hash_iff.mpr hhash)
            obtain ⟨hlexes, hbuild, hitems⟩ := newline_ending hread (read_separator hclass hread) hls pos
            exact ⟨_, rest, ls, hlexes, by simp, hbuild, by simpa [itemsAfter, hc] using hitems⟩

end Endings

/-! ## Labels and directives -/

theorem Lexes.afterLabel {s : List Char} {ls : List Lexeme} (h : Lexes .label s ls) (pos : Nat) :
    ∃ blanks t ls', s = blanks ++ t ∧ (∀ c ∈ blanks, isBlank c = true) ∧ Ends t ∧ Lexes .label t ls' ∧
      ls'.length ≤ ls.length ∧ build pos ls = build (pos + blanks.length) ls' := by
  generalize hctx : Context.label = ctx at h
  induction h generalizing pos with
  | nil => cases hctx
  | @cons ctx s l rest ls hread hls ih =>
      subst hctx
      by_cases hws : l.terminal = .WS
      · have hnext : Context.label.next l.terminal = .label := by
          rw [hws]
          rfl
        obtain ⟨rfl, hmatches⟩ := Context.read_matches hread
        rw [hws] at hmatches
        obtain ⟨blanks, t, ls', rfl, hblanks, ht, hls', hlength, hbuild⟩ :=
          ih (pos + l.text.length) hnext.symm
        refine ⟨l.text ++ blanks, t, ls', by simp, ?_, ht, hnext ▸ hls', by simp; omega, ?_⟩
        · intro c hc
          rcases List.mem_append.mp hc with hc | hc
          · exact hmatches.2.1 c hc
          · exact hblanks c hc
        · rw [build_skip (.inl hws), hbuild, List.length_append, Nat.add_assoc]
      · refine ⟨[], s, l :: ls, rfl, by simp, ?_, .cons hread hls, Nat.le_refl _, rfl⟩
        rintro c s' rfl
        have hcls := Context.read_cls hread
        have hmem := Context.read_mem hread
        rw [isEnd_iff, ← hcls]
        revert hws hmem
        cases l.terminal <;> decide

/-- Blanks and the end of a statement are arguments. -/
theorem argsRead_blanks {blanks t : List Char} (hblanks : ∀ c ∈ blanks, isBlank c = true) (ht : Ends t) :
    ∃ xs, ArgsRead (blanks ++ t) xs t ∧ texts xs = blanks := by
  cases blanks with
  | nil => exact ⟨[], .done ht, rfl⟩
  | cons c blanks =>
      refine ⟨[⟨.statement, .WS, c :: blanks⟩],
        .step ?_ (by simp [argTerminals]) (.done ht), by simp [texts]⟩
      refine Context.read_iff.mpr ⟨[.STRING, .LABEL_REF, .LABEL, .TOKEN, .COMMENT, .NEWLINE], [],
        rfl, rfl, ?_, rfl,
        by simp, hblanks, ?_⟩
      · intro t' ht'
        cases hlongest : t'.longest (c :: blanks ++ t) with
        | none => rfl
        | some r =>
            obtain ⟨hs, hmatches⟩ := Terminal.longest_iff.mp hlongest
            obtain ⟨d, x, hx, hd⟩ := hmatches.cls
            rw [hx, List.cons_append, List.cons_append, List.cons.injEq] at hs
            have hc := isBlank_iff.mp (hblanks c (by simp))
            rw [hs.1, hd] at hc
            cases t' <;> simp [Terminal.cls] at hc ht'
      · cases t with
        | nil => rfl
        | cons d t => simp [isBlank_of_isEnd (ht d t rfl)]

theorem Lexes.afterDirective {ctx : Context} {s : List Char} {ls : List Lexeme} (h : Lexes ctx s ls)
    (hctx : ctx = .directive ∨ ctx = .directiveArgs) (pos : Nat) :
    ∃ w t ls', s = w ++ t ∧ (∀ c ∈ w, isEnd c = false) ∧ Ends t ∧ Lexes .directiveArgs t ls' ∧
      ls'.length ≤ ls.length ∧ (build pos ls).2 = (build (pos + w.length) ls').2 := by
  induction h generalizing pos with
  | nil => simp at hctx
  | @cons ctx s l rest ls hread hls ih =>
      obtain ⟨hs, hmatches⟩ := Context.read_matches hread
      have hmem := Context.read_mem hread
      have hlctx := Context.read_ctx hread
      by_cases hend : l.terminal = .COMMENT ∨ l.terminal = .NEWLINE
      · have hargs : ctx = .directiveArgs := by
          rcases hctx with rfl | rfl
          · rcases hend with hend | hend
            · -- the name of the directive would have to follow the comment on the next line
              obtain ⟨d, x, hx, hd⟩ := hmatches.cls
              have hhash : d = '#' := hash_iff.mpr (by rw [hd, hend]; rfl)
              rw [hs, hx, hhash, List.cons_append] at hread
              obtain ⟨l', _, _, _, hread', hnl, _⟩ := comment_ending (by decide) hread hls pos
              have := Context.read_mem hread'
              rw [hnl] at this
              exact absurd this (by decide)
            · rw [hend] at hmem
              exact absurd hmem (by decide)
          · rfl
        subst hargs
        refine ⟨[], s, l :: ls, rfl, by simp, ?_, .cons hread hls, Nat.le_refl _, rfl⟩
        rintro c s' rfl
        rw [isEnd_iff, ← Context.read_cls hread]
        rcases hend with hend | hend <;> simp [hend, Terminal.cls]
      · have hnext : ctx.next l.terminal = .directive ∨ ctx.next l.terminal = .directiveArgs := by
          revert hmem hend
          rcases hctx with rfl | rfl <;> cases l.terminal <;> decide
        obtain ⟨w, t, ls', rfl, hw, ht, hls', hlength, hbuild⟩ := ih hnext (pos + l.text.length)
        refine ⟨l.text ++ w, t, ls', by simp [hs], ?_, ht, hls', by simp; omega, ?_⟩
        · intro c hc
          rcases List.mem_append.mp hc with hc | hc
          · by_cases harg : l.terminal ∈ argTerminals
            · have hstring : l.terminal ≠ .STRING := by
                rintro hstring
                rw [hstring] at hmem
                revert hmem
                rcases hctx with rfl | rfl <;> decide
              exact (arg_chars harg hmatches).2 hstring c hc
            · have hname : l.terminal = .directiveName := by
                revert hmem hend harg
                rcases hctx with rfl | rfl <;> cases l.terminal <;> decide
              rw [hname] at hmatches
              have hall : ∀ name ∈ directiveNames, name.all (fun c => !isEnd c) = true := by decide
              simpa using List.all_eq_true.mp (hall l.text hmatches) c hc
          · exact hw c hc
        · rw [build_directive_arg (hlctx ▸ hctx), hbuild, List.length_append, Nat.add_assoc]

end Mlogv32.Parser
