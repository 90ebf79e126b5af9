import Mlogv32.Parser.Theorems.Replace

/-!
# Reading the new text

How the lexemes of a text change when its references become numbers. Every other lexeme is read as
before, and the number is a token of its own exactly if the reference is `Apart`.
-/

namespace Mlogv32.Parser
open Python

variable {labels : List (String × Nat)} {s s' rest rest' : List Char} {p : Char → Bool}

/-! ## Numbers in a text -/

/-- The second text is the first one, with a number for some of its runs of token characters. -/
inductive Digited : List Char → List Char → Prop where
  | nil : Digited [] []
  | keep (c : Char) {s s' : List Char} : Digited s s' → Digited (c :: s) (c :: s')
  | number {x d s s' : List Char} : x ≠ [] → (∀ c ∈ x, isTokenChar c = true) → d ≠ [] →
      (∀ c ∈ d, c.isDigit = true) → Digited s s' → Digited (x ++ s) (d ++ s')

theorem isTokenChar_of_isDigit {c : Char} (h : c.isDigit = true) : isTokenChar c = true := by
  have hne {d : Char} (hd : d.isDigit = false) : c ≠ d := by
    rintro rfl
    rw [hd] at h
    cases h
  simp [isTokenChar, hne (d := '\n') (by decide), hne (d := ' ') (by decide),
    hne (d := '#') (by decide), hne (d := '\t') (by decide), hne (d := ';') (by decide)]

theorem Digited.append (a : List Char) (h : Digited s s') : Digited (a ++ s) (a ++ s') := by
  induction a with
  | nil => exact h
  | cons c a ih => exact .keep c ih

/-- The two texts begin with the same kind of character. -/
theorem Digited.takeWhile_eq_nil (hp : ∀ c d, isTokenChar c = true → isTokenChar d = true → p c = p d)
    (h : Digited s s') : s.takeWhile p = [] ↔ s'.takeWhile p = [] := by
  cases h with
  | nil => rfl
  | keep c => by_cases hc : p c = true <;> simp [hc]
  | @number x d _ _ hx hxs hd hds =>
      obtain ⟨c, x, rfl⟩ := List.exists_cons_of_ne_nil hx
      obtain ⟨e, d, rfl⟩ := List.exists_cons_of_ne_nil hd
      have heq := hp c e (hxs c (by simp)) (isTokenChar_of_isDigit (hds e (by simp)))
      by_cases he : p e = true <;> simp [heq, he]

/-- No run of the new text has a character that is new, apart from the digits. -/
theorem Digited.mem_takeWhile (hp : ∀ c, isTokenChar c = true → p c = true) (h : Digited s s')
    {c : Char} (hc : c ∈ s'.takeWhile p) (hdigit : c.isDigit = false) : c ∈ s.takeWhile p := by
  induction h with
  | nil => exact hc
  | keep e _ ih =>
      by_cases he : p e = true
      · simp only [List.takeWhile_cons, he, if_true, List.mem_cons] at hc ⊢
        exact hc.imp_right ih
      · simp [he] at hc
  | @number x d s s' _ hxs _ hds _ ih =>
      rw [takeWhile_append_of_all fun e he => hp e (isTokenChar_of_isDigit (hds e he)),
        List.mem_append] at hc
      rw [takeWhile_append_of_all fun e he => hp e (hxs e he), List.mem_append]
      refine .inr (ih (hc.resolve_left fun hmem => ?_))
      rw [hds c hmem] at hdigit
      cases hdigit

/-- What follows a match matters only for where it ends. -/
theorem Terminal.Matches.digited {t : Terminal} {a : List Char} (h : t.Matches a rest)
    (hrest : Digited rest rest') : t.Matches a rest' := by
  have htoken (c : Char) (hc : isTokenChar c = true) : isTokenChar c = true := hc
  have hline (c : Char) (hc : isTokenChar c = true) : decide (c ≠ '\n') = true := by
    simp only [isTokenChar, Bool.and_eq_true] at hc
    exact hc.1.1.1.1
  have hclass {q : Char → Bool} {k : CharClass} (hq : ∀ {c}, q c = true ↔ classOf c = k) (c d : Char)
      (hc : isTokenChar c = true) (hd : isTokenChar d = true) : q c = q d := by
    rw [Bool.eq_iff_iff, hq, hq, isTokenChar_iff.mp hc, isTokenChar_iff.mp hd]
  cases t with
  | STRING =>
      obtain ⟨x, rfl, hx, hcloses⟩ := h
      refine ⟨x, rfl, hx, ?_⟩
      simp only [closes, decide_eq_false_iff_not] at hcloses ⊢
      exact fun hmem => hcloses (hrest.mem_takeWhile hline hmem (by decide))
  | LABEL =>
      obtain ⟨x, rfl, hx, hxs, hcolon⟩ := h
      exact ⟨x, rfl, hx, hxs, fun hmem => hcolon (hrest.mem_takeWhile htoken hmem (by decide))⟩
  | LABEL_REF =>
      obtain ⟨x, rfl, hx, hxs, hpercent⟩ := h
      exact ⟨x, rfl, hx, hxs, fun hmem => hpercent (hrest.mem_takeWhile htoken hmem (by decide))⟩
  | TOKEN => exact ⟨h.1, h.2.1, (hrest.takeWhile_eq_nil (hclass isTokenChar_iff)).mp h.2.2⟩
  | DIRECTIVE | directiveName => exact h
  | COMMENT =>
      obtain ⟨x, rfl, hx, hend⟩ := h
      refine ⟨x, rfl, hx, (hrest.takeWhile_eq_nil fun c d hc hd => ?_).mp hend⟩
      rw [hline c hc, hline d hd]
  | NEWLINE => exact ⟨h.1, h.2.1, (hrest.takeWhile_eq_nil (hclass isSeparator_iff)).mp h.2.2⟩
  | WS => exact ⟨h.1, h.2.1, (hrest.takeWhile_eq_nil (hclass isBlank_iff)).mp h.2.2⟩

/-! ## Terminals that do not match -/

theorem spanUntil_eq_none {c : Char} {least : Nat} {run rest : List Char} :
    spanUntil c least run rest = none ↔ c ∉ run.drop least := by
  unfold spanUntil
  cases h : splitLast c run with
  | none =>
      have hrun := splitLast_eq_none.mp h
      simp only [true_iff]
      exact fun hmem => hrun (List.mem_of_mem_drop hmem)
  | some r =>
      obtain ⟨a, b⟩ := r
      obtain ⟨rfl, hb⟩ := splitLast_iff.mp h
      dsimp only
      split_ifs with hleast
      · simp only [false_iff, not_not]
        rw [List.drop_append_of_le_length hleast]
        simp
      · simp only [true_iff]
        rw [List.drop_append, List.drop_eq_nil_of_le (by omega), List.nil_append]
        obtain ⟨k, hk⟩ : ∃ k, least - a.length = k + 1 := ⟨least - a.length - 1, by omega⟩
        rw [hk, List.drop_succ_cons]
        exact fun hmem => hb (List.mem_of_mem_drop hmem)

/-- Behind `a` nothing is new that the terminal could end with. -/
theorem spanUntil_digited (hp : ∀ c, isTokenChar c = true → p c = true) {c : Char} {least : Nat}
    {a : List Char} (ha : ∀ d ∈ a, p d = true) (hleast : least ≤ a.length)
    (hdigit : c.isDigit = false) (h : Digited rest rest')
    (hnone : spanUntil c least ((a ++ rest).takeWhile p) ((a ++ rest).dropWhile p) = none) :
    spanUntil c least ((a ++ rest').takeWhile p) ((a ++ rest').dropWhile p) = none := by
  rw [spanUntil_eq_none, takeWhile_append_of_all ha, List.drop_append_of_le_length hleast,
    List.mem_append, not_or] at hnone ⊢
  exact hnone.imp_right fun h' hmem => h' (h.mem_takeWhile hp hmem hdigit)

/-- A terminal of token characters that does not match before a number does not match behind it. -/
theorem Terminal.longest_digited {t : Terminal} (ht : t ∈ [Terminal.STRING, .LABEL, .LABEL_REF])
    {a : List Char} (hnil : a ≠ []) (ha : ∀ c ∈ a, isTokenChar c = true)
    (hlength : 2 ≤ a.length ∨ rest.takeWhile isTokenChar = []) (h : Digited rest rest')
    (hnone : t.longest (a ++ rest) = none) : t.longest (a ++ rest') = none := by
  have hpos : 1 ≤ a.length := List.length_pos_iff.mpr hnil
  have hhead : (a ++ rest').head? = (a ++ rest).head? := by
    obtain ⟨c, a, rfl⟩ := List.exists_cons_of_ne_nil hnil
    rfl
  have hline (c : Char) (hc : isTokenChar c = true) : decide (c ≠ '\n') = true := by
    simp only [isTokenChar, Bool.and_eq_true] at hc
    exact hc.1.1.1.1
  have hclass (c d : Char) (hc : isTokenChar c = true) (hd : isTokenChar d = true) :
      isTokenChar c = isTokenChar d := by rw [hc, hd]
  simp only [List.mem_cons, List.not_mem_nil, or_false] at ht
  rcases ht with rfl | rfl | rfl
  · simp only [longest, hhead] at hnone ⊢
    split_ifs at hnone ⊢ with hquote
    · exact spanUntil_digited hline (fun c hc => hline c (ha c hc)) hpos (by decide) h hnone
    · rfl
  · exact spanUntil_digited (fun _ hc => hc) ha hpos (by decide) h hnone
  · simp only [longest, hhead] at hnone ⊢
    split_ifs at hnone ⊢ with hpercent
    · rcases hlength with hlength | hend
      · exact spanUntil_digited (fun _ hc => hc) ha hlength (by decide) h hnone
      · have hend' := (h.takeWhile_eq_nil hclass).mp hend
        rw [spanUntil_eq_none, takeWhile_append_of_all ha] at hnone ⊢
        rw [hend] at hnone
        rw [hend']
        exact hnone
    · rfl

/-- The terminals that the lexer tries before another one of the same first characters. -/
theorem Context.earlier (ctx : Context) (u : Terminal) :
    ∀ t ∈ ctx.terminals.takeWhile (· ≠ u), u ∈ ctx.terminals → u ≠ .LABEL_REF → t.cls = u.cls →
      (t ∈ [Terminal.STRING, .LABEL, .LABEL_REF] ∧ (u = .TOKEN ∨ u = .LABEL)) ∨
        (t = .DIRECTIVE ∧ u = .COMMENT) := by
  cases ctx <;> cases u <;> decide

theorem Context.takeWhile_terminals {ctx : Context} {u : Terminal} {pre post : List Terminal}
    (h : ctx.terminals = pre ++ u :: post) : ctx.terminals.takeWhile (· ≠ u) = pre := by
  have hnodup : ctx.terminals.Nodup := by cases ctx <;> decide
  rw [h] at hnodup ⊢
  have hu : ∀ t ∈ pre, decide (t ≠ u) = true := by
    intro t ht
    rw [decide_eq_true_eq]
    rintro rfl
    exact (List.nodup_append.mp hnodup).2.2 t ht t List.mem_cons_self rfl
  rw [List.takeWhile_append_of_pos hu]
  simp

/-- A comment that is no directive is none before a number. -/
theorem directive_digited {a : List Char} (ha : '\n' ∉ a) (hend : rest.takeWhile (· ≠ '\n') = [])
    (hend' : rest'.takeWhile (· ≠ '\n') = [])
    (hnone : Terminal.DIRECTIVE.longest (a ++ rest) = none) :
    Terminal.DIRECTIVE.longest (a ++ rest') = none := by
  have hline : ∀ c ∈ a, decide (c ≠ '\n') = true := by
    intro c hc
    rw [decide_eq_true_eq]
    rintro rfl
    exact ha hc
  have hstarts : directivePrefix.isPrefixOf (a ++ rest') = directivePrefix.isPrefixOf (a ++ rest) := by
    rw [← directivePrefix_takeWhile, takeWhile_append_of_all hline, hend',
      ← directivePrefix_takeWhile (s := a ++ rest), takeWhile_append_of_all hline, hend]
  rw [Bool.eq_iff_iff, List.isPrefixOf_iff_prefix, List.isPrefixOf_iff_prefix] at hstarts
  simp only [Terminal.longest] at hnone ⊢
  split_ifs at hnone with h
  exact if_neg fun h' => h (hstarts.mp h')

/-- A lexeme that is no reference is read as before. -/
theorem Context.read_digited {ctx : Context} {l : Lexeme} (h : ctx.read s = some (l, rest))
    (hne : l.terminal ≠ .LABEL_REF) (hrest : Digited rest rest') :
    ctx.read (l.text ++ rest') = some (l, rest') := by
  obtain ⟨pre, post, hterminals, hctx, hnone, rfl, hmatches⟩ := Context.read_iff.mp h
  refine Context.read_iff.mpr ⟨pre, post, hterminals, hctx, fun t ht => ?_, rfl,
    hmatches.digited hrest⟩
  have hnone := hnone t ht
  have hmatches' := hmatches.digited hrest
  obtain ⟨c, x, htext, hcls⟩ := hmatches.cls
  by_cases hsame : t.cls = l.terminal.cls
  · rw [← Context.takeWhile_terminals hterminals] at ht
    rcases Context.earlier ctx l.terminal t ht (Context.read_mem h) hne hsame with
      ⟨ht, hu | hu⟩ | ⟨rfl, hu⟩
    · rw [hu] at hmatches
      obtain ⟨hnil, htoken, hend⟩ := hmatches
      exact Terminal.longest_digited ht hnil htoken (.inr hend) hrest hnone
    · rw [hu] at hmatches
      obtain ⟨y, hy, hnil, htoken, -⟩ := hmatches
      have hpos := List.length_pos_iff.mpr hnil
      refine Terminal.longest_digited ht (by simp [htext]) (fun d hd => ?_) (.inl ?_) hrest hnone
      · rw [hy, List.mem_append, List.mem_singleton] at hd
        rcases hd with hd | rfl
        · exact htoken d hd
        · decide
      · rw [hy, List.length_append, List.length_singleton]
        omega
    · rw [hu] at hmatches hmatches'
      obtain ⟨y, hy, hline, hend⟩ := hmatches
      obtain ⟨-, -, -, hend'⟩ := hmatches'
      refine directive_digited ?_ hend hend' hnone
      rw [hy, List.mem_cons, not_or]
      exact ⟨by decide, hline⟩
  · -- another first character
    cases hlongest : t.longest (l.text ++ rest') with
    | none => rfl
    | some r =>
        obtain ⟨heq, hother⟩ := Terminal.longest_iff.mp hlongest
        obtain ⟨d, y, hd, hcls'⟩ := hother.cls
        rw [htext, hd, List.cons_append, List.cons_append, List.cons.injEq] at heq
        rw [heq.1, hcls'] at hcls
        exact absurd hcls hsame

/-! ## Resolved lexemes -/

/-- A reference as the token of its number. -/
def Lexeme.resolve (labels : List (String × Nat)) (l : Lexeme) : Lexeme :=
  if l.terminal = .LABEL_REF then { l with terminal := .TOKEN, text := l.replaced labels } else l

theorem Lexeme.resolve_text (l : Lexeme) : (l.resolve labels).text = l.replaced labels := by
  unfold resolve
  split_ifs with h
  · rfl
  · rw [replaced, if_neg h]

theorem texts_resolve (ls : List Lexeme) :
    texts (ls.map (Lexeme.resolve labels)) = ls.flatMap (Lexeme.replaced labels) := by
  rw [texts, List.flatMap_map]
  exact congrArg (List.flatMap · ls) (funext Lexeme.resolve_text)

theorem Lexeme.next_resolve (labels : List (String × Nat)) (ctx : Context) (l : Lexeme)
    (h : l.terminal ∈ ctx.terminals) :
    ctx.next (l.resolve labels).terminal = ctx.next l.terminal := by
  unfold resolve
  split_ifs with href
  · rw [href] at h ⊢
    cases ctx <;> first | rfl | exact absurd h (by decide)
  · rfl

theorem Lexeme.replaced_digits (labels : List (String × Nat)) {l : Lexeme} (h : l.terminal = .LABEL_REF) :
    l.replaced labels ≠ [] ∧ ∀ c ∈ l.replaced labels, c.isDigit = true := by
  rw [replaced, if_pos h, Nat.toString_eq_ofList_toDigits, String.toList_ofList]
  exact ⟨Nat.toDigits_ne_nil, fun c hc => Nat.isDigit_of_mem_toDigits (by decide) (by decide) hc⟩

theorem Lexes.digited (labels : List (String × Nat)) {ctx : Context} {ls : List Lexeme}
    (h : Lexes ctx s ls) :
    Digited s (texts (ls.map (Lexeme.resolve labels))) := by
  induction h with
  | nil => exact .nil
  | @cons ctx s l rest ls hread _ ih =>
      obtain ⟨rfl, hmatches⟩ := Context.read_matches hread
      rw [List.map_cons, texts, List.flatMap_cons, Lexeme.resolve_text]
      by_cases href : l.terminal = .LABEL_REF
      · rw [href] at hmatches
        obtain ⟨x, hx, -, hxs, -⟩ := hmatches
        obtain ⟨hnil, hdigits⟩ := Lexeme.replaced_digits labels href
        refine .number (by simp [hx]) (fun c hc => ?_) hnil hdigits ih
        rw [hx] at hc
        simp only [List.cons_append, List.mem_cons, List.mem_append, List.not_mem_nil,
          or_false] at hc
        rcases hc with rfl | hc | rfl
        · decide
        · exact hxs c hc
        · decide
      · rw [Lexeme.replaced, if_neg href]
        exact ih.append l.text

/-! ## The number of a reference -/

/-- No reference is followed by a character of a token. -/
def Apart : List Lexeme → Prop
  | [] => True
  | l :: ls => (l.terminal = .LABEL_REF → (texts ls).takeWhile isTokenChar = []) ∧ Apart ls

section Number
variable {d : List Char}

theorem head_ne_of_digits (hnil : d ≠ []) (hd : ∀ c ∈ d, c.isDigit = true) {c : Char}
    (hc : c.isDigit = false) : (d ++ s).head? ≠ some c := by
  obtain ⟨e, d, rfl⟩ := List.exists_cons_of_ne_nil hnil
  rintro h
  cases h
  rw [hd c List.mem_cons_self] at hc
  cases hc

/-- A number that ends before `s` is a token. -/
theorem read_number (hnil : d ≠ []) (hd : ∀ c ∈ d, c.isDigit = true)
    (hs : s.takeWhile isTokenChar = []) :
    Context.statement.read (d ++ s) = some (⟨.statement, .TOKEN, d⟩, s) := by
  have htoken : ∀ c ∈ d, isTokenChar c = true := fun c hc => isTokenChar_of_isDigit (hd c hc)
  refine Context.read_iff.mpr ⟨[.STRING, .LABEL_REF, .LABEL], [.COMMENT, .NEWLINE, .WS], rfl, rfl,
    fun t ht => ?_, rfl, hnil, htoken, hs⟩
  simp only [List.mem_cons, List.not_mem_nil, or_false] at ht
  rcases ht with rfl | rfl | rfl
  · exact if_neg (head_ne_of_digits hnil hd (by decide))
  · exact if_neg (head_ne_of_digits hnil hd (by decide))
  · rw [Terminal.longest, spanUntil_eq_none, takeWhile_append_of_all htoken, hs, List.append_nil]
    intro hmem
    have := hd ':' (List.mem_of_mem_drop hmem)
    revert this
    decide

/-- A number that does not end there is no lexeme. -/
theorem read_number_ne (hnil : d ≠ []) (hd : ∀ c ∈ d, c.isDigit = true)
    (hs : s.takeWhile isTokenChar ≠ []) {l : Lexeme} {rest : List Char}
    (h : Context.statement.read (d ++ s) = some (l, rest)) : l.text ≠ d := by
  rintro rfl
  obtain ⟨heq, hmatches⟩ := Context.read_matches h
  obtain rfl : s = rest := List.append_cancel_left heq
  have hmem := Context.read_mem h
  obtain ⟨c, x, htext, hcls⟩ := hmatches.cls
  have hdigit := hd c (by rw [htext]; exact List.mem_cons_self)
  rw [isTokenChar_iff.mp (isTokenChar_of_isDigit hdigit)] at hcls
  have hlast {y : List Char} {e : Char} (he : e.isDigit = false) (heq : l.text = y ++ [e]) :
      False := by
    have := hd e (by rw [heq]; simp)
    rw [he] at this
    cases this
  cases hterminal : l.terminal with
  | STRING =>
      rw [hterminal] at hmatches
      obtain ⟨y, hy, -⟩ := hmatches
      exact hlast (by decide) hy
  | LABEL =>
      rw [hterminal] at hmatches
      obtain ⟨y, hy, -⟩ := hmatches
      exact hlast (by decide) hy
  | LABEL_REF =>
      rw [hterminal] at hmatches
      obtain ⟨y, hy, -⟩ := hmatches
      exact hlast (by decide) hy
  | TOKEN =>
      rw [hterminal] at hmatches
      exact hs hmatches.2.2
  | directiveName =>
      rw [hterminal] at hmem
      exact absurd hmem (by decide)
  | DIRECTIVE | COMMENT | NEWLINE | WS =>
      rw [hterminal] at hcls
      cases hcls

end Number

/-! ## The lexemes of the new text -/

theorem texts_takeWhile {ctx : Context} {ls : List Lexeme} (h : Lexes ctx s ls) :
    (texts ls).takeWhile isTokenChar = [] ↔
      (texts (ls.map (Lexeme.resolve labels))).takeWhile isTokenChar = [] := by
  have htexts : texts ls = s := h.flatMap_text.symm
  rw [htexts]
  exact (h.digited labels).takeWhile_eq_nil fun c d hc hd => by rw [hc, hd]

theorem Context.statement_of_ref {ctx : Context} (h : Terminal.LABEL_REF ∈ ctx.terminals) :
    ctx = .statement := by
  revert h
  cases ctx <;> decide

/-- If every reference is apart, the new text has the resolved lexemes. -/
theorem Lexes.resolve (labels : List (String × Nat)) {ctx : Context} {ls : List Lexeme}
    (h : Lexes ctx s ls) (hapart : Apart ls) :
    Lexes ctx (texts (ls.map (Lexeme.resolve labels))) (ls.map (Lexeme.resolve labels)) := by
  induction h with
  | nil => exact .nil
  | @cons ctx s l rest ls hread hls ih =>
      obtain ⟨hend, hapart⟩ := hapart
      have hmem := Context.read_mem hread
      have hnext := Lexeme.next_resolve labels ctx l hmem
      rw [List.map_cons, texts, List.flatMap_cons, Lexeme.resolve_text]
      refine .cons ?_ (hnext ▸ ih hapart)
      by_cases href : l.terminal = .LABEL_REF
      · rw [href] at hmem
        obtain rfl := Context.statement_of_ref hmem
        obtain ⟨hnil, hdigits⟩ := Lexeme.replaced_digits labels href
        have hresolve : l.resolve labels = ⟨.statement, .TOKEN, l.replaced labels⟩ := by
          rw [Lexeme.resolve, if_pos href, Context.read_ctx hread]
        rw [hresolve]
        exact read_number hnil hdigits ((texts_takeWhile hls).mp (hend href))
      · rw [Lexeme.resolve, if_neg href, Lexeme.replaced, if_neg href]
        exact Context.read_digited hread href (hls.digited labels)

/-- The words of a text. -/
def Lexeme.word? (l : Lexeme) : Option (TokenType × String) :=
  if l.terminal ∈ [Terminal.DIRECTIVE, .COMMENT, .NEWLINE, .WS] then none
  else some (l.terminal.tokenType, String.ofList l.text)

def words (ls : List Lexeme) : List (TokenType × String) := ls.filterMap Lexeme.word?

theorem Lexes.exists_cons {ctx : Context} {ls : List Lexeme} (h : Lexes ctx s ls) (hs : s ≠ []) :
    ∃ l rest ls', ls = l :: ls' ∧ ctx.read s = some (l, rest) ∧
      Lexes (ctx.next l.terminal) rest ls' := by
  cases h with
  | nil => exact absurd rfl hs
  | cons hread h => exact ⟨_, _, _, rfl, hread, h⟩

/-- If the new text has the words of the resolved lexemes, every reference is apart. -/
theorem Lexes.apart {ctx : Context} {ls : List Lexeme} (h : Lexes ctx s ls) {ls' : List Lexeme}
    (h' : Lexes ctx (texts (ls.map (Lexeme.resolve labels))) ls')
    (hwords : words ls' = words (ls.map (Lexeme.resolve labels))) : Apart ls := by
  induction h generalizing ls' with
  | nil => trivial
  | @cons ctx s l rest ls hread hls ih =>
      have hmem := Context.read_mem hread
      rw [List.map_cons, texts, List.flatMap_cons, Lexeme.resolve_text] at h'
      change Lexes ctx (l.replaced labels ++ texts (ls.map (Lexeme.resolve labels))) ls' at h'
      by_cases href : l.terminal = .LABEL_REF
      · rw [href] at hmem
        obtain rfl := Context.statement_of_ref hmem
        obtain ⟨hnil, hdigits⟩ := Lexeme.replaced_digits labels href
        have hresolve : l.resolve labels = ⟨.statement, .TOKEN, l.replaced labels⟩ := by
          rw [Lexeme.resolve, if_pos href, Context.read_ctx hread]
        obtain ⟨l', rest', ls', rfl, hread', hls'⟩ := h'.exists_cons (by simp [hnil])
        rw [List.map_cons, hresolve] at hwords
        by_cases hend : (texts (ls.map (Lexeme.resolve labels))).takeWhile isTokenChar = []
        · rw [read_number hnil hdigits hend] at hread'
          cases hread'
          have hls' : Lexes (Context.statement.next l.terminal)
              (texts (ls.map (Lexeme.resolve labels))) ls' := by
            rw [href]
            exact hls'
          exact ⟨fun _ => (texts_takeWhile hls).mpr hend, ih hls' (List.cons.inj hwords).2⟩
        · -- the next word begins with the number, and goes on
          have hne := read_number_ne hnil hdigits hend hread'
          have hword : l'.word? = some (l'.terminal.tokenType, String.ofList l'.text) := by
            refine if_neg fun hskip => ?_
            obtain ⟨c, d, hcons⟩ := List.exists_cons_of_ne_nil hnil
            rw [hcons, List.cons_append] at hread'
            have hcls := Context.read_cls hread'
            have hdigit := hdigits c (by rw [hcons]; exact List.mem_cons_self)
            rw [isTokenChar_iff.mp (isTokenChar_of_isDigit hdigit)] at hcls
            revert hskip hcls
            cases l'.terminal <;> decide
          rw [words, words, List.filterMap_cons_some hword] at hwords
          have heq := congrArg Prod.snd (List.cons.inj hwords).1
          exact absurd (String.ofList_injective heq) hne
      · have hread' := Context.read_digited hread href (hls.digited labels)
        rw [Lexeme.replaced, if_neg href] at h'
        obtain ⟨hs, hmatches⟩ := Context.read_matches hread
        obtain ⟨l', rest', ls', rfl, hread'', hls'⟩ :=
          h'.exists_cons (by simp [hmatches.ne_nil])
        rw [hread'] at hread''
        cases hread''
        refine ⟨fun h => absurd h href, ih hls' ?_⟩
        rw [List.map_cons, Lexeme.resolve, if_neg href, words, words, List.filterMap_cons,
          List.filterMap_cons] at hwords
        cases hword : l.word? with
        | none => rwa [hword] at hwords
        | some w =>
            rw [hword] at hwords
            exact (List.cons.inj hwords).2

end Mlogv32.Parser
