import Mlogv32.Parser.Text

/-!
# Matches of the terminals

What the longest match of each terminal is (`Terminal.longest_iff`), and the lexemes of a text as a
relation (`Lexes`).
-/

namespace Mlogv32.Parser

/-! ## Runs -/

section Runs
variable {p : Char → Bool} {a b s : List Char}

theorem takeWhile_append_of_all (ha : ∀ c ∈ a, p c = true) : (a ++ b).takeWhile p = a ++ b.takeWhile p :=
  List.takeWhile_append_of_pos ha

theorem dropWhile_append_of_all (ha : ∀ c ∈ a, p c = true) : (a ++ b).dropWhile p = b.dropWhile p :=
  List.dropWhile_append_of_pos ha

theorem dropWhile_of_takeWhile (h : s.takeWhile p = []) : s.dropWhile p = s := by
  have := List.takeWhile_append_dropWhile (p := p) (l := s)
  rwa [h, List.nil_append] at this

theorem takeWhile_dropWhile (p : Char → Bool) (s : List Char) : (s.dropWhile p).takeWhile p = [] := by
  induction s with
  | nil => rfl
  | cons c s ih =>
      by_cases hc : p c = true
      · simpa [hc] using ih
      · simp [hc]

theorem of_mem_takeWhile {c : Char} (h : c ∈ s.takeWhile p) : p c = true := List.mem_takeWhile_imp h

theorem spanRun_iff : spanRun p s = some (a, b) ↔
    s = a ++ b ∧ a ≠ [] ∧ (∀ c ∈ a, p c = true) ∧ b.takeWhile p = [] := by
  unfold spanRun
  constructor
  · intro h
    split_ifs at h with hnil
    cases h
    exact ⟨List.takeWhile_append_dropWhile.symm, hnil, fun _ =>
      of_mem_takeWhile, takeWhile_dropWhile p s⟩
  · rintro ⟨rfl, hnil, ha, hb⟩
    rw [takeWhile_append_of_all ha, dropWhile_append_of_all ha, hb, List.append_nil, if_neg hnil,
      dropWhile_of_takeWhile hb]

end Runs

theorem splitLast_eq_none {c : Char} {s : List Char} : splitLast c s = none ↔ c ∉ s := by
  induction s with
  | nil => simp [splitLast]
  | cons x s ih =>
      simp only [splitLast]
      cases h : splitLast c s with
      | none =>
          have hs := ih.mp h
          by_cases hx : x = c <;> simp [hx, hs, Ne.symm, eq_comm]
      | some r =>
          have hs : c ∈ s := by
            by_contra hc
            rw [ih.mpr hc] at h
            cases h
          simp [hs]

theorem splitLast_iff {c : Char} {s a b : List Char} :
    splitLast c s = some (a, b) ↔ s = a ++ c :: b ∧ c ∉ b := by
  induction s generalizing a b with
  | nil => simp [splitLast]
  | cons x s ih =>
      simp only [splitLast]
      cases h : splitLast c s with
      | none =>
          have hs := splitLast_eq_none.mp h
          constructor
          · intro h
            split_ifs at h with hx
            cases h
            exact ⟨by simp [hx], hs⟩
          · rintro ⟨heq, hb⟩
            cases a with
            | nil =>
                simp only [List.nil_append, List.cons.injEq] at heq
                simp [heq]
            | cons y a =>
                simp only [List.cons_append, List.cons.injEq] at heq
                exact absurd (by simp [heq.2]) hs
      | some r =>
          obtain ⟨a', b'⟩ := r
          obtain ⟨hs, hb'⟩ := ih.mp h
          constructor
          · intro h
            cases h
            exact ⟨by simp [hs], hb'⟩
          · rintro ⟨heq, hb⟩
            cases a with
            | nil =>
                simp only [List.nil_append, List.cons.injEq] at heq
                exact absurd (by simp [← heq.2, hs]) hb
            | cons y a =>
                simp only [List.cons_append, List.cons.injEq] at heq
                have := ih.mpr ⟨heq.2, hb⟩
                rw [h] at this
                cases this
                simp [heq.1]

theorem spanUntil_iff {p : Char → Bool} {c : Char} {least : Nat} {s a b : List Char} (hc : p c = true) :
    spanUntil c least (s.takeWhile p) (s.dropWhile p) = some (a, b) ↔
      s = a ++ b ∧ ∃ x, a = x ++ [c] ∧ least ≤ x.length ∧ (∀ d ∈ x, p d = true) ∧ c ∉ b.takeWhile p := by
  unfold spanUntil
  constructor
  · intro h
    split at h
    · next x y hsplit =>
        split_ifs at h with hleast
        cases h
        obtain ⟨hrun, hy⟩ := splitLast_iff.mp hsplit
        have hall : ∀ d ∈ x ++ c :: y, p d = true := fun d hd => of_mem_takeWhile (hrun ▸ hd)
        refine ⟨?_, x, rfl, hleast, fun d hd => hall d (by simp [hd]), ?_⟩
        · calc s = s.takeWhile p ++ s.dropWhile p := List.takeWhile_append_dropWhile.symm
            _ = _ := by simp [hrun]
        · rw [takeWhile_append_of_all fun d hd => hall d (by simp [hd]),
            takeWhile_dropWhile, List.append_nil]
          exact hy
    · cases h
  · rintro ⟨rfl, x, rfl, hleast, hx, hb⟩
    have hall : ∀ d ∈ x ++ [c], p d = true := by
      intro d hd
      rcases List.mem_append.mp hd with hd | hd
      · exact hx d hd
      · exact List.mem_singleton.mp hd ▸ hc
    have hsplit : splitLast c ((x ++ [c] ++ b).takeWhile p) = some (x, b.takeWhile p) := by
      rw [takeWhile_append_of_all hall]
      exact splitLast_iff.mpr ⟨by simp, hb⟩
    rw [hsplit, dropWhile_append_of_all hall]
    simp [hleast, List.takeWhile_append_dropWhile]

/-! ## Matches -/

/-- `a` is the longest match of a terminal before `b`. -/
def Terminal.Matches (t : Terminal) (a b : List Char) : Prop :=
  match t with
  | STRING => ∃ x, a = '"' :: x ++ ['"'] ∧ '\n' ∉ x ∧ closes b = false
  | LABEL => ∃ x, a = x ++ [':'] ∧ x ≠ [] ∧ (∀ c ∈ x, isTokenChar c = true) ∧
      ':' ∉ b.takeWhile isTokenChar
  | LABEL_REF => ∃ x, a = '%' :: x ++ ['%'] ∧ x ≠ [] ∧ (∀ c ∈ x, isTokenChar c = true) ∧
      '%' ∉ b.takeWhile isTokenChar
  | TOKEN => a ≠ [] ∧ (∀ c ∈ a, isTokenChar c = true) ∧ b.takeWhile isTokenChar = []
  | DIRECTIVE => a = directivePrefix
  | directiveName => a ∈ directiveNames
  | COMMENT => ∃ x, a = '#' :: x ∧ '\n' ∉ x ∧ b.takeWhile (· ≠ '\n') = []
  | NEWLINE => a ≠ [] ∧ (∀ c ∈ a, isSeparator c = true) ∧ b.takeWhile isSeparator = []
  | WS => a ≠ [] ∧ (∀ c ∈ a, isBlank c = true) ∧ b.takeWhile isBlank = []

theorem head?_append_singleton {x b : List Char} {c : Char} {least : Nat} (hleast : 1 ≤ least)
    (hx : least ≤ x.length) (h : (x ++ [c] ++ b).head? = some c) :
    ∃ y, x = c :: y ∧ least ≤ y.length + 1 := by
  cases x with
  | nil =>
      simp only [List.length_nil] at hx
      omega
  | cons d y =>
      simp only [List.cons_append, List.head?_cons, Option.some.injEq] at h
      exact ⟨y, by rw [h], hx⟩

theorem directiveNames_unique {a a' : List Char} (ha : a ∈ directiveNames)
    (ha' : a' ∈ directiveNames) {b : List Char} (h : a' <+: a ++ b) : a' = a := by
  have hno : ∀ x ∈ directiveNames, ∀ y ∈ directiveNames, x.take (min x.length y.length) =
      y.take (min x.length y.length) → x = y := by decide
  obtain ⟨r, hr⟩ := h
  refine hno a' ha' a ha ?_
  have hleft : (a' ++ r).take (min a'.length a.length) = a'.take (min a'.length a.length) :=
    List.take_append_of_le_length (Nat.min_le_left _ _)
  have hright : (a ++ b).take (min a'.length a.length) = a.take (min a'.length a.length) :=
    List.take_append_of_le_length (Nat.min_le_right _ _)
  rw [← hleft, ← hright, hr]

theorem Terminal.longest_iff {t : Terminal} {s a b : List Char} :
    t.longest s = some (a, b) ↔ s = a ++ b ∧ t.Matches a b := by
  cases t with
  | STRING =>
      simp only [longest, Matches]
      constructor
      · intro h
        split_ifs at h with hhead
        obtain ⟨rfl, x, rfl, hx, hall, hb⟩ := (spanUntil_iff (by decide)).mp h
        obtain ⟨y, rfl, _⟩ := head?_append_singleton (Nat.le_refl 1) hx hhead
        refine ⟨rfl, y, rfl, ?_, by simpa [closes] using hb⟩
        intro hmem
        simpa using hall '\n' (by simp [hmem])
      · rintro ⟨rfl, x, rfl, hx, hb⟩
        rw [if_pos (by simp)]
        refine (spanUntil_iff (by decide)).mpr ⟨rfl, '"' :: x, rfl, by simp,
          ?_, by simpa [closes] using hb⟩
        intro d hd
        rcases List.mem_cons.mp hd with rfl | hd
        · decide
        · simp only [ne_eq, decide_not, Bool.not_eq_eq_eq_not, Bool.not_true, decide_eq_false_iff_not]
          rintro rfl
          exact hx hd
  | LABEL =>
      simp only [longest, Matches]
      rw [spanUntil_iff (by decide)]
      simp only [← List.length_pos_iff]
      rfl
  | LABEL_REF =>
      simp only [longest, Matches]
      constructor
      · intro h
        split_ifs at h with hhead
        obtain ⟨rfl, x, rfl, hx, hall, hb⟩ := (spanUntil_iff (by decide)).mp h
        obtain ⟨y, rfl, hy⟩ := head?_append_singleton (by decide) hx hhead
        refine ⟨rfl, y, rfl, ?_, fun c hc => hall c (by simp [hc]), hb⟩
        rintro rfl
        simp at hy
      · rintro ⟨rfl, x, rfl, hx, hall, hb⟩
        rw [if_pos (by simp)]
        have hlength := List.length_pos_iff.mpr hx
        refine (spanUntil_iff (by decide)).mpr ⟨rfl, '%' :: x, rfl, Nat.succ_le_succ hlength, ?_, hb⟩
        intro d hd
        rcases List.mem_cons.mp hd with rfl | hd
        · decide
        · exact hall d hd
  | TOKEN => exact spanRun_iff
  | NEWLINE => exact spanRun_iff
  | WS => exact spanRun_iff
  | DIRECTIVE =>
      simp only [longest, Matches]
      constructor
      · intro h
        split_ifs at h with hp
        cases h
        obtain ⟨r, rfl⟩ := hp
        simp
      · rintro ⟨rfl, rfl⟩
        simp
  | directiveName =>
      simp only [longest, Matches, Option.map_eq_some_iff]
      constructor
      · rintro ⟨name, hfind, heq⟩
        have hname : name <+: s := by simpa using List.find?_some hfind
        cases heq
        obtain ⟨r, rfl⟩ := hname
        exact ⟨by simp, List.mem_of_find?_eq_some hfind⟩
      · rintro ⟨rfl, ha⟩
        cases hfind : directiveNames.find? (fun x => decide (x <+: a ++ b)) with
        | none =>
            have := List.find?_eq_none.mp hfind a ha
            simp at this
        | some name =>
            have hname := directiveNames_unique ha (List.mem_of_find?_eq_some hfind)
              (by simpa using List.find?_some hfind)
            subst hname
            exact ⟨name, rfl, by simp⟩
  | COMMENT =>
      simp only [longest, Matches]
      constructor
      · intro h
        split_ifs at h with hhead
        obtain ⟨rfl, hnil, hall, hb⟩ := spanRun_iff.mp h
        cases a with
        | nil => exact absurd rfl hnil
        | cons c x =>
            simp only [List.cons_append, List.head?_cons, Option.some.injEq] at hhead
            subst hhead
            refine ⟨rfl, x, rfl, ?_, hb⟩
            intro hmem
            simpa using hall '\n' (by simp [hmem])
      · rintro ⟨rfl, x, rfl, hx, hb⟩
        rw [if_pos (by simp)]
        refine spanRun_iff.mpr ⟨rfl, by simp, ?_, hb⟩
        intro d hd
        rcases List.mem_cons.mp hd with rfl | hd
        · decide
        · simp only [ne_eq, decide_not, Bool.not_eq_eq_eq_not, Bool.not_true, decide_eq_false_iff_not]
          rintro rfl
          exact hx hd

/-! ## The lexer -/

theorem Context.read_iff {ctx : Context} {s rest : List Char} {l : Lexeme} :
    ctx.read s = some (l, rest) ↔ ∃ pre post, ctx.terminals = pre ++ l.terminal :: post ∧ l.ctx = ctx ∧
      (∀ t ∈ pre, t.longest s = none) ∧ s = l.text ++ rest ∧ l.terminal.Matches l.text rest := by
  unfold read
  rw [List.findSome?_eq_some_iff]
  constructor
  · rintro ⟨pre, t, post, hterminals, hmap, hpre⟩
    obtain ⟨⟨a, b⟩, hlongest, heq⟩ := Option.map_eq_some_iff.mp hmap
    cases heq
    obtain ⟨hs, hmatches⟩ := Terminal.longest_iff.mp hlongest
    exact ⟨pre, post, hterminals, rfl, fun t ht => by simpa using hpre t ht, hs, hmatches⟩
  · rintro ⟨pre, post, hterminals, rfl, hpre, hs, hmatches⟩
    refine ⟨pre, l.terminal, post, hterminals, ?_, fun t ht => by simp [hpre t ht]⟩
    rw [Terminal.longest_iff.mpr ⟨hs, hmatches⟩]
    rfl

/-- The terminals before the one that matches do not match. -/
theorem Context.read_before {ctx : Context} {s rest : List Char} {l : Lexeme}
    (h : ctx.read s = some (l, rest)) {t : Terminal}
    (ht : ctx.terminals.idxOf t < ctx.terminals.idxOf l.terminal) : t.longest s = none := by
  obtain ⟨pre, post, hterminals, _, hnone, _⟩ := Context.read_iff.mp h
  refine hnone t ?_
  by_contra hmem
  rw [hterminals, List.idxOf_append_of_notMem hmem] at ht
  by_cases hpre : l.terminal ∈ pre
  · rw [List.idxOf_append_of_mem hpre] at ht
    have := List.idxOf_lt_length_of_mem hpre
    omega
  · rw [List.idxOf_append_of_notMem hpre, List.idxOf_cons_self] at ht
    omega

/-- The lexemes of a text. -/
inductive Lexes : Context → List Char → List Lexeme → Prop where
  | nil : Lexes .line [] []
  | cons {ctx s l rest ls} : ctx.read s = some (l, rest) → Lexes (ctx.next l.terminal) rest ls →
      Lexes ctx s (l :: ls)

theorem Terminal.Matches.ne_nil {t : Terminal} {a b : List Char} (h : t.Matches a b) : a ≠ [] := by
  cases t with
  | STRING | LABEL | LABEL_REF | COMMENT =>
      obtain ⟨x, rfl, _⟩ := h
      simp
  | TOKEN | NEWLINE | WS => exact h.1
  | DIRECTIVE =>
      cases h
      decide
  | directiveName =>
      rintro rfl
      have hnil : [] ∉ directiveNames := by decide
      exact hnil h

theorem Context.read_length {ctx : Context} {s rest : List Char} {l : Lexeme}
    (h : ctx.read s = some (l, rest)) :
    rest.length < s.length := by
  obtain ⟨_, _, _, _, _, rfl, hmatches⟩ := Context.read_iff.mp h
  have := List.length_pos_iff.mpr hmatches.ne_nil
  simp only [List.length_append]
  omega

theorem Context.read_nil (ctx : Context) : ctx.read [] = none := by
  cases ctx <;> decide

theorem lex_sound {fuel : Nat} {ctx : Context} {s : List Char} {ls : List Lexeme}
    (h : lex fuel ctx s = some ls) :
    Lexes ctx s ls := by
  fun_induction lex fuel ctx s generalizing ls with
  | case1 =>
      cases h
      exact .nil
  | case2 | case3 | case5 => cases h
  | case4 fuel ctx c s l rest hread ih =>
      obtain ⟨ls', hls', rfl⟩ := Option.map_eq_some_iff.mp h
      exact .cons hread (ih hls')

theorem Lexes.lex {ctx : Context} {s : List Char} {ls : List Lexeme} (h : Lexes ctx s ls) {fuel : Nat}
    (hfuel : s.length ≤ fuel) : Parser.lex fuel ctx s = some ls := by
  induction h generalizing fuel with
  | nil => unfold Parser.lex; rfl
  | @cons ctx s l rest ls hread _ ih =>
      have hlength := Context.read_length hread
      cases s with
      | nil => simp at hlength
      | cons c s =>
          cases fuel with
          | zero => simp at hfuel
          | succ fuel =>
              have hrest : rest.length ≤ fuel := by omega
              simp only [Parser.lex, hread, ih hrest, Option.map_some]

theorem parseMlog_iff {text : String} {ast : AST} :
    parseMlog text = some ast ↔ ∃ ls, Lexes .line text.toList ls ∧ ast = (build 0 ls).2 := by
  unfold parseMlog
  rw [Option.map_eq_some_iff]
  constructor
  · rintro ⟨ls, hls, rfl⟩
    exact ⟨ls, lex_sound hls, rfl⟩
  · rintro ⟨ls, hls, rfl⟩
    exact ⟨ls, hls.lex (Nat.le_refl _), rfl⟩

end Mlogv32.Parser
