import Mlogv32.Parser.Lemmas.Text

/-!
# Lines of lexemes

How the lexemes of a text fall into statements, labels and directives, and what `build` makes of
them.
-/

namespace Mlogv32.Parser

/-! ## The first character of a lexeme -/

def Terminal.cls : Terminal → CharClass
  | DIRECTIVE | COMMENT => .hash
  | NEWLINE => .separator
  | WS => .blank
  | _ => .token

theorem Terminal.Matches.cls {t : Terminal} {a b : List Char} (h : t.Matches a b) :
    ∃ c x, a = c :: x ∧ classOf c = t.cls := by
  have hhead {a : List Char} {p : Char → Bool} {k : CharClass}
      (hp : ∀ {c}, p c = true → classOf c = k) (hnil : a ≠ [])
      (ha : ∀ c ∈ a, p c = true) : ∃ c x, a = c :: x ∧ classOf c = k := by
    cases a with
    | nil => exact absurd rfl hnil
    | cons c x => exact ⟨c, x, rfl, hp (ha c (by simp))⟩
  cases t with
  | STRING | LABEL_REF | COMMENT =>
      obtain ⟨x, rfl, _⟩ := h
      exact ⟨_, _, rfl, by decide⟩
  | LABEL =>
      obtain ⟨x, rfl, hnil, hx, _⟩ := h
      obtain ⟨c, y, rfl, hc⟩ := hhead isTokenChar_iff.mp hnil hx
      exact ⟨c, _, rfl, hc⟩
  | TOKEN => exact hhead isTokenChar_iff.mp h.1 h.2.1
  | NEWLINE => exact hhead isSeparator_iff.mp h.1 h.2.1
  | WS => exact hhead isBlank_iff.mp h.1 h.2.1
  | DIRECTIVE =>
      cases h
      exact ⟨_, _, rfl, by decide⟩
  | directiveName =>
      have hall : ∀ name ∈ directiveNames, ∃ c x, name = c :: x ∧ classOf c = .token := by
        intro name hname
        have hcheck : ∀ name ∈ directiveNames, name ≠ [] ∧ name.all isTokenChar = true := by decide
        exact hhead isTokenChar_iff.mp (hcheck name hname).1 (List.all_eq_true.mp (hcheck name hname).2)
      exact hall a h

theorem Context.read_cls {ctx : Context} {c : Char} {s rest : List Char} {l : Lexeme}
    (h : ctx.read (c :: s) = some (l, rest)) : l.terminal.cls = classOf c := by
  obtain ⟨_, _, _, _, _, hs, hmatches⟩ := Context.read_iff.mp h
  obtain ⟨d, x, htext, hd⟩ := hmatches.cls
  rw [htext, List.cons_append, List.cons.injEq] at hs
  rw [hs.1, hd]

theorem Context.read_mem {ctx : Context} {s rest : List Char} {l : Lexeme}
    (h : ctx.read s = some (l, rest)) :
    l.terminal ∈ ctx.terminals := by
  obtain ⟨_, _, hterminals, _⟩ := Context.read_iff.mp h
  simp [hterminals]

theorem Context.read_ctx {ctx : Context} {s rest : List Char} {l : Lexeme}
    (h : ctx.read s = some (l, rest)) :
    l.ctx = ctx := by
  obtain ⟨_, _, _, hctx, _⟩ := Context.read_iff.mp h
  exact hctx

theorem Context.read_matches {ctx : Context} {s rest : List Char} {l : Lexeme}
    (h : ctx.read s = some (l, rest)) :
    s = l.text ++ rest ∧ l.terminal.Matches l.text rest := by
  obtain ⟨_, _, _, _, _, hs, hmatches⟩ := Context.read_iff.mp h
  exact ⟨hs, hmatches⟩

/-! ## Arguments -/

def argTerminals : List Terminal := [.STRING, .LABEL_REF, .LABEL, .TOKEN, .WS]

theorem isEnd_of_arg {t : Terminal} (ht : t ∈ argTerminals) {c : Char} (hc : classOf c = t.cls) :
    isEnd c = false := by
  rw [isEnd_eq_false, hc]
  revert ht
  cases t <;> decide

/-- The lexemes of a statement after its name, up to the end of the statement. -/
inductive ArgsRead : List Char → List Lexeme → List Char → Prop where
  | done {t} : Ends t → ArgsRead t [] t
  | step {s l rest xs t} : Context.statement.read s = some (l, rest) → l.terminal ∈ argTerminals →
      ArgsRead rest xs t → ArgsRead s (l :: xs) t

theorem ArgsRead.ends {s t : List Char} {xs : List Lexeme} (h : ArgsRead s xs t) : Ends t := by
  induction h with
  | done ht => exact ht
  | step _ _ _ ih => exact ih

theorem Lexes.args {s : List Char} {ls : List Lexeme} (h : Lexes .statement s ls) :
    ∃ xs t ls', ls = xs ++ ls' ∧ ArgsRead s xs t ∧ Lexes .statement t ls' := by
  generalize hctx : Context.statement = ctx at h
  induction h with
  | nil => cases hctx
  | @cons ctx s l rest ls hread hls ih =>
      subst hctx
      by_cases harg : l.terminal ∈ argTerminals
      · have hnext : Context.statement.next l.terminal = .statement := by
          revert harg
          cases l.terminal <;> decide
        obtain ⟨xs, t, ls', rfl, hxs, ht⟩ := ih hnext.symm
        rw [hnext] at ht
        exact ⟨l :: xs, t, ls', rfl, .step hread harg hxs, ht⟩
      · refine ⟨[], s, l :: ls, rfl, .done ?_, .cons hread hls⟩
        rintro c s' rfl
        have hcls := Context.read_cls hread
        have hmem := Context.read_mem hread
        rw [isEnd_iff, ← hcls]
        revert harg hmem
        cases l.terminal <;> decide

theorem arg_chars {t : Terminal} (ht : t ∈ argTerminals) {a b : List Char} (h : t.Matches a b) :
    '\n' ∉ a ∧ (t ≠ .STRING → ∀ c ∈ a, isEnd c = false) := by
  have hplain (hall : ∀ c ∈ a, isEnd c = false) : '\n' ∉ a ∧
      (t ≠ .STRING → ∀ c ∈ a, isEnd c = false) := by
    refine ⟨fun hmem => ?_, fun _ => hall⟩
    have := hall _ hmem
    revert this
    decide
  have htoken {x : List Char} (hx : ∀ c ∈ x, isTokenChar c = true) : ∀ c ∈ x,
      isEnd c = false := fun c hc =>
    isEnd_eq_false.mpr (.inl (isTokenChar_iff.mp (hx c hc)))
  cases t with
  | STRING =>
      obtain ⟨x, rfl, hx, _⟩ := h
      exact ⟨by simp [hx], fun hne => absurd rfl hne⟩
  | LABEL_REF =>
      obtain ⟨x, rfl, _, hx, _⟩ := h
      refine hplain fun c hc => ?_
      simp only [List.cons_append, List.mem_cons, List.mem_append, List.not_mem_nil, or_false] at hc
      rcases hc with rfl | hc | rfl
      · decide
      · exact htoken hx c hc
      · decide
  | LABEL =>
      obtain ⟨x, rfl, _, hx, _⟩ := h
      refine hplain fun c hc => ?_
      simp only [List.mem_append, List.mem_singleton] at hc
      rcases hc with hc | rfl
      · exact htoken hx c hc
      · decide
  | TOKEN => exact hplain (htoken h.2.1)
  | WS => exact hplain fun c hc => isEnd_eq_false.mpr (.inr (isBlank_iff.mp (h.2.1 c hc)))
  | DIRECTIVE | directiveName | COMMENT | NEWLINE => simp [argTerminals] at ht

def texts (xs : List Lexeme) : List Char := xs.flatMap Lexeme.text

theorem ArgsRead.texts {s t : List Char} {xs : List Lexeme} (h : ArgsRead s xs t) :
    s = texts xs ++ t ∧ '\n' ∉ texts xs := by
  induction h with
  | done _ => exact ⟨rfl, by simp [Parser.texts]⟩
  | @step s l rest xs t hread harg _ ih =>
      obtain ⟨rfl, hmatches⟩ := Context.read_matches hread
      have hchars := (arg_chars harg hmatches).1
      refine ⟨?_, ?_⟩
      · rw [ih.1]
        simp [Parser.texts]
      · simp only [Parser.texts, List.flatMap_cons, List.mem_append, not_or]
        exact ⟨hchars, ih.2⟩

/-- After the last double quote of a line there are no strings. -/
theorem ArgsRead.of_not_closes {s t : List Char} {xs : List Lexeme} (h : ArgsRead s xs t)
    (hcloses : closes s = false) :
    ∀ c ∈ Parser.texts xs, isEnd c = false := by
  induction h with
  | done _ => simp [Parser.texts]
  | @step s l rest xs t hread harg _ ih =>
      obtain ⟨rfl, hmatches⟩ := Context.read_matches hread
      obtain ⟨hnewline, hchars⟩ := arg_chars harg hmatches
      rw [closes_append hnewline, Bool.or_eq_false_iff] at hcloses
      have hstring : l.terminal ≠ .STRING := by
        intro hstring
        rw [hstring] at hmatches
        obtain ⟨x, hx, _⟩ := hmatches
        simp [hx] at hcloses
      intro c hc
      simp only [Parser.texts, List.flatMap_cons, List.mem_append] at hc
      rcases hc with hc | hc
      · exact hchars hstring c hc
      · exact ih hcloses.2 c hc

theorem ArgsRead.string {s t : List Char} {xs : List Lexeme} (h : ArgsRead s xs t) :
    PlainArgs s t ∨ ∃ pre x b ys, s = pre ++ '"' :: x ++ '"' :: b ∧ '\n' ∉ pre ++ '"' :: x ∧
      PlainArgs s ('"' :: x ++ '"' :: b) ∧ closes b = false ∧ ArgsRead b ys t := by
  induction h with
  | done _ => exact .inl .done
  | @step s l rest xs t hread harg hxs ih =>
      obtain ⟨rfl, hmatches⟩ := Context.read_matches hread
      have hchars := (arg_chars harg hmatches).1
      by_cases hstring : l.terminal = .STRING
      · rw [hstring] at hmatches
        obtain ⟨x, hx, hnewline, hcloses⟩ := hmatches
        refine .inr ⟨[], x, rest, xs, by simp [hx], by simpa using hnewline, ?_, hcloses, hxs⟩
        rw [hx]
        simpa using PlainArgs.done
      · have hplain : l.terminal ∈ [Terminal.LABEL_REF, .LABEL, .TOKEN, .WS] := by
          simpa [argTerminals, hstring] using harg
        rcases ih with ih | ⟨pre, x, b, ys, rfl, hnewline, hargs, hcloses, hys⟩
        · exact .inl (.step hread hplain ih)
        · refine .inr ⟨l.text ++ pre, x, b, ys, by simp, ?_, .step hread hplain hargs, hcloses, hys⟩
          simp only [List.append_assoc, List.mem_append, not_or] at hnewline ⊢
          exact ⟨hchars, hnewline⟩

/-- Reading plain arguments stays inside the statement. -/
theorem ArgsRead.plain {s t q : List Char} {xs : List Lexeme} (h : ArgsRead s xs t)
    (hplain : PlainArgs s q) :
    ∃ pre ys, s = pre ++ q ∧ '\n' ∉ pre ∧ ArgsRead q ys t := by
  induction hplain generalizing xs with
  | done => exact ⟨[], xs, rfl, by simp, h⟩
  | @step s rest q l hread hterminal _ ih =>
      have harg : l.terminal ∈ argTerminals := by
        revert hterminal
        cases l.terminal <;> decide
      obtain ⟨rfl, hmatches⟩ := Context.read_matches hread
      cases h with
      | done hends =>
          obtain ⟨c, x, htext, hc⟩ := hmatches.cls
          have hend := hends c (x ++ rest) (by simp [htext])
          simp [isEnd_of_arg harg hc] at hend
      | @step _ l' rest' xs _ hread' _ hxs =>
          rw [hread, Option.some.injEq, Prod.mk.injEq] at hread'
          obtain ⟨rfl, rfl⟩ := hread'
          obtain ⟨pre, ys, rfl, hpre, hys⟩ := ih hxs
          refine ⟨l.text ++ pre, ys, by simp, ?_, hys⟩
          simp only [List.mem_append, not_or]
          exact ⟨(arg_chars harg hmatches).1, hpre⟩

/-! ## Where a statement ends -/

theorem StringAt.split {q : List Char} (h : StringAt q) :
    ∃ x b, q = '"' :: x ++ '"' :: b ∧ '\n' ∉ x ∧ closes b = false := by
  obtain ⟨hhead, hcloses⟩ := h
  cases q with
  | nil => cases hhead
  | cons c q =>
      simp only [List.head?_cons, Option.some.injEq] at hhead
      subst hhead
      have hmem : '"' ∈ q.takeWhile (· ≠ '\n') := by simpa [closes] using hcloses
      obtain ⟨⟨a, b⟩, hsplit⟩ : ∃ r, splitLast '"' (q.takeWhile (· ≠ '\n')) = some r := by
        rw [← Option.ne_none_iff_exists']
        intro hsplit
        exact splitLast_eq_none.mp hsplit hmem
      obtain ⟨hrun, hb⟩ := splitLast_iff.mp hsplit
      have hall : ∀ c ∈ a ++ '"' :: b, decide (c ≠ '\n') = true :=
        fun c hc => of_mem_takeWhile (hrun ▸ hc)
      refine ⟨a, b ++ q.dropWhile (· ≠ '\n'), ?_, ?_, ?_⟩
      · calc '"' :: q = '"' :: (q.takeWhile (· ≠ '\n') ++ q.dropWhile (· ≠ '\n')) := by
              rw [List.takeWhile_append_dropWhile]
          _ = _ := by rw [hrun]; simp
      · intro hnewline
        simpa using hall '\n' (by simp [hnewline])
      · unfold closes
        rw [takeWhile_append_of_all fun c hc => hall c (by simp [hc]),
          takeWhile_dropWhile, List.append_nil]
        exact decide_eq_false hb

theorem StringAt.terminal {q rest : List Char} {l : Lexeme} (h : StringAt q)
    (hread : Context.statement.read q = some (l, rest)) : l.terminal = .STRING := by
  obtain ⟨x, b, rfl, hx, hb⟩ := h.split
  have hlongest : Terminal.STRING.longest ('"' :: x ++ '"' :: b) = some ('"' :: x ++ ['"'], b) :=
    Terminal.longest_iff.mpr ⟨by simp, x, rfl, hx, hb⟩
  obtain ⟨pre, post, hterminals, _, hnone, _⟩ := Context.read_iff.mp hread
  cases pre with
  | nil =>
      simp only [List.nil_append, Context.terminals, List.cons.injEq] at hterminals
      exact hterminals.1.symm
  | cons t pre =>
      simp only [List.cons_append, Context.terminals, List.cons.injEq] at hterminals
      have := hnone t (by simp)
      rw [← hterminals.1, hlongest] at this
      cases this

/-- A statement that the lexer reads as `w`, and the game as `z`: they are the same exactly if the
arguments are plain up to the end, or up to a string with no double quote after the statement. -/
theorem ArgsRead.cut_iff {name s t : List Char} {xs : List Lexeme}
    (hname : ∀ c ∈ name, isTokenChar c = true) (h : ArgsRead s xs t)
    (hstart : ∀ c, s.head? = some c → isTokenChar c = false) :
    (cut false (name ++ s)).1 = name ++ Parser.texts xs ↔
      ∃ q, PlainArgs ((name ++ s).dropWhile isTokenChar) q ∧
        (q = (cut false (name ++ s)).2 ∨ StringAt q ∧ closes (cut false (name ++ s)).2 = false) := by
  obtain ⟨hs, hnewline⟩ := h.texts
  have hdrop : (name ++ s).dropWhile isTokenChar = s := by
    rw [dropWhile_append_of_all hname]
    cases s with
    | nil => rfl
    | cons c s => simp [hstart c rfl]
  have hnameNewline : '\n' ∉ name := by
    intro hmem
    have := hname _ hmem
    revert this
    decide
  have hrest : (cut false (name ++ s)).1 = name ++ Parser.texts xs ↔ (cut false (name ++ s)).2 = t := by
    have happend := cut_append false (name ++ s)
    constructor
    · intro heq
      rw [heq] at happend
      nth_rewrite 2 [hs] at happend
      simpa using happend
    · intro heq
      rw [heq] at happend
      have : (cut false (name ++ s)).1 ++ t = (name ++ Parser.texts xs) ++ t := by rw [happend, hs]; simp
      exact List.append_cancel_right this
  rw [hrest, hdrop]
  constructor
  · intro heq
    rcases h.string with hplain | ⟨pre, x, b, ys, _, hline, hplain, hcloses, hys⟩
    · exact ⟨t, hplain, .inl heq.symm⟩
    · refine ⟨_, hplain, .inr ⟨⟨rfl, ?_⟩, ?_⟩⟩
      · have hx : '\n' ∉ x := fun hmem => hline (by simp [hmem])
        simp only [List.cons_append, List.tail_cons]
        rw [closes_append hx, closes_cons (by decide)]
        simp
      · obtain ⟨hb, hbline⟩ := hys.texts
        rw [hb, closes_append hbline, Bool.or_eq_false_iff] at hcloses
        rw [heq]
        exact hcloses.2
  · rintro ⟨q, hplain, hq⟩
    obtain ⟨pre, ys, hpre, hpreLine, hys⟩ := h.plain hplain
    rcases hq with rfl | ⟨hstring, hcloses⟩
    · -- the game stops where the lexer reads no further argument
      cases hys with
      | done => rfl
      | @step _ l rest ys _ hread harg _ =>
          obtain ⟨hq, hmatches⟩ := Context.read_matches hread
          obtain ⟨c, x, htext, hc⟩ := hmatches.cls
          have hends := cut_ends false (name ++ s) c (x ++ rest) (by rw [hq, htext]; rfl)
          simp [isEnd_of_arg harg hc] at hends
    · cases hys with
      | done hends =>
          obtain ⟨x, b, rfl, _⟩ := hstring.split
          have hend := hends '"' (x ++ '"' :: b) rfl
          exact absurd hend (by decide)
      | @step _ l rest ys _ hread harg hys =>
          obtain ⟨hq, hmatches⟩ := Context.read_matches hread
          have hterminal := hstring.terminal hread
          rw [hterminal] at hmatches
          obtain ⟨x, hx, hnewlineX, hclosesRest⟩ := hmatches
          obtain ⟨hrest', _⟩ := hys.texts
          have hends := hys.of_not_closes hclosesRest
          have hwhole : name ++ s = (name ++ pre ++ '"' :: x) ++ '"' :: (Parser.texts ys ++ t) := by
            rw [hpre, hq, hx, ← hrest']
            simp
          have hline : '\n' ∉ name ++ pre ++ '"' :: x := by
            simp only [List.mem_append, List.mem_cons, not_or]
            exact ⟨⟨hnameNewline, hpreLine⟩, by decide, hnewlineX⟩
          rw [hrest'] at hclosesRest
          have hlast := cut_of_last_quote hline hends hys.ends hclosesRest false
          rw [← hwhole, hcloses] at hlast
          exact hlast.resolve_right (by simp)

end Mlogv32.Parser
