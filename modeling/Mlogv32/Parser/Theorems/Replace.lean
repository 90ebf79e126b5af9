import Mlogv32.Parser.Theorems.Labels

/-!
# Symbolic labels in the text

`replace_symbolic_labels` replaces each `%label%` argument of the text by the number of the label
and leaves every other lexeme as it is.
-/

namespace Mlogv32.Parser
open Python

/-! ## References -/

/-- The references of a text, with their positions. -/
def refTokens : Nat → List Lexeme → List Token
  | _, [] => []
  | pos, l :: ls =>
    if l.terminal = .LABEL_REF then l.token pos :: refTokens (pos + l.text.length) ls
    else refTokens (pos + l.text.length) ls

def IsRef (token : Token) : Bool := token.type = .LABEL_REF

/-- The references among the arguments of the line and in the nodes after it. -/
def refsOf (r : List Token × AST) : List Token := r.1.filter IsRef ++ iterLabelRefs r.2

theorem token_isRef (l : Lexeme) (pos : Nat) :
    IsRef (l.token pos) = decide (l.terminal = .LABEL_REF) := by
  obtain ⟨ctx, terminal, text⟩ := l
  cases terminal <;> rfl

/-- The references of the nodes are those of the lexemes. Only the arguments of statements are
references. -/
theorem Lexes.refsOf_build {ctx : Context} {t : List Char} {ls : List Lexeme} (h : Lexes ctx t ls) :
    ∀ pos, refsOf (build pos ls) = refTokens pos ls ∧
    (ctx ≠ .statement → (build pos ls).1.filter IsRef = []) := by
  induction h with
  | nil => exact fun pos => ⟨rfl, fun _ => rfl⟩
  | @cons ctx t l rest ls hread _ ih =>
      intro pos
      have hmem := Context.read_mem hread
      have hctx := Context.read_ctx hread
      obtain ⟨hrefs, hargs⟩ := ih (pos + l.text.length)
      have hkeep (hne : l.terminal ≠ .LABEL_REF) : refTokens pos (l :: ls) =
        refTokens (pos + l.text.length) ls := if_neg hne
      -- The line is at its end, or has no references.
      have hnodes (hnext : ctx.next l.terminal ≠ .statement) :
          iterLabelRefs (build (pos + l.text.length) ls).2 = refTokens (pos + l.text.length) ls := by
        rw [← hrefs, refsOf, hargs hnext, List.nil_append]
      cases hterminal : l.terminal with
      | WS | COMMENT =>
          have hnext : ctx.next l.terminal = ctx := by rw [hterminal]; cases ctx <;> rfl
          rw [build_skip (by simp [hterminal]), hkeep (by simp [hterminal]), hrefs]
          rw [hnext] at hargs
          exact ⟨rfl, hargs⟩
      | NEWLINE =>
          rw [build_newline hterminal, hkeep (by simp [hterminal])]
          exact ⟨hnodes (by rw [hterminal]; cases ctx <;> exact fun h => by cases h), fun _ => rfl⟩
      | DIRECTIVE =>
          have hline : ctx = .line := by
            rw [hterminal] at hmem
            cases ctx <;> first | rfl | exact absurd hmem (by decide)
          subst hline
          rw [hkeep (by simp [hterminal]), ← hnodes (by rw [hterminal]; exact fun h => by cases h)]
          obtain ⟨c, terminal, text⟩ := l
          cases hterminal
          cases hctx
          simp only [build]
          split <;> exact ⟨rfl, fun _ => rfl⟩
      | directiveName =>
          have hdirective : ctx = .directive := by
            rw [hterminal] at hmem
            cases ctx <;> first | rfl | exact absurd hmem (by decide)
          subst hdirective
          rw [hkeep (by simp [hterminal])]
          have hbuild : build pos (l :: ls) =
              (l.token pos :: (build (pos + l.text.length) ls).1,
                (build (pos + l.text.length) ls).2) := by
            obtain ⟨c, terminal, text⟩ := l
            cases hterminal
            cases hctx
            rfl
          have hfilter : (build pos (l :: ls)).1.filter IsRef = [] := by
            rw [hbuild, List.filter_cons, token_isRef, hterminal]
            exact hargs (by rw [hterminal]; exact fun h => by cases h)
          refine ⟨?_, fun _ => hfilter⟩
          rw [refsOf, hfilter, List.nil_append, hbuild]
          exact hnodes (by rw [hterminal]; exact fun h => by cases h)
      | LABEL =>
          rw [hkeep (by simp [hterminal])]
          rw [hterminal] at hmem hargs hnodes
          cases ctx with
          | line =>
              rw [build_label hctx hterminal]
              exact ⟨hnodes (fun h => by cases h), fun _ => rfl⟩
          | statement =>
              rw [build_arg hctx (by rw [hterminal]; decide) (by rw [hterminal]; decide)]
              refine ⟨?_, fun h => absurd rfl h⟩
              rw [refsOf, List.filter_cons, token_isRef, hterminal]
              exact hrefs
          | label | directive | directiveArgs => exact absurd hmem (by decide)
      | TOKEN =>
          rw [hkeep (by simp [hterminal])]
          rw [hterminal] at hmem hargs hnodes
          cases ctx with
          | line =>
              rw [build_statement hctx hterminal]
              exact ⟨hrefs, fun _ => rfl⟩
          | statement =>
              rw [build_arg hctx (by rw [hterminal]; decide) (by rw [hterminal]; decide)]
              refine ⟨?_, fun h => absurd rfl h⟩
              rw [refsOf, List.filter_cons, token_isRef, hterminal]
              exact hrefs
          | directiveArgs =>
              have hbuild : build pos (l :: ls) =
                  (l.token pos :: (build (pos + l.text.length) ls).1,
                    (build (pos + l.text.length) ls).2) := by
                obtain ⟨c, terminal, text⟩ := l
                cases hterminal
                cases hctx
                rfl
              have hfilter : (build pos (l :: ls)).1.filter IsRef = [] := by
                rw [hbuild, List.filter_cons, token_isRef, hterminal]
                exact hargs (fun h => by cases h)
              refine ⟨?_, fun _ => hfilter⟩
              rw [refsOf, hfilter, List.nil_append, hbuild]
              exact hnodes (fun h => by cases h)
          | label | directive => exact absurd hmem (by decide)
      | STRING | LABEL_REF =>
          have hstatement : ctx = .statement := by
            rw [hterminal] at hmem
            cases ctx <;> first | rfl | exact absurd hmem (by decide)
          subst hstatement
          rw [build_arg hctx (by rw [hterminal]; decide) (by rw [hterminal]; decide)]
          refine ⟨?_, fun h => absurd rfl h⟩
          rw [refsOf, List.filter_cons, token_isRef, refTokens, hterminal]
          first
          | exact congrArg (l.token pos :: ·) hrefs
          | exact hrefs

/-! ## The new text -/

/-- The label of a reference. -/
def Lexeme.label (l : Lexeme) : String := inner (String.ofList l.text)

def Lexeme.replaced (labels : List (String × Nat)) (l : Lexeme) : List Char :=
  if l.terminal = .LABEL_REF then (toString ((dict labels l.label).getD 0)).toList else l.text

/-- All references are to labels. -/
def Known (labels : List (String × Nat)) (ls : List Lexeme) : Prop :=
  ∀ l ∈ ls, l.terminal = .LABEL_REF → dict labels l.label ≠ none

theorem replaceFrom_refTokens {full : List Char} {labels : List (String × Nat)} :
    ∀ {ls : List Lexeme} (pre gap : List Char),
    full = pre ++ gap ++ ls.flatMap Lexeme.text →
      (Known labels ls ∧ replaceFrom full labels pre.length (refTokens (pre.length + gap.length) ls) =
        .ok (gap ++ ls.flatMap (Lexeme.replaced labels))) ∨
      ∃ l ∈ ls, l.terminal = .LABEL_REF ∧ dict labels l.label = none ∧ ∃ token,
      token.value = String.ofList l.text ∧
        replaceFrom full labels pre.length (refTokens (pre.length + gap.length) ls) =
          .error (.unknownLabel l.label token) := by
  intro ls
  induction ls with
  | nil =>
      intro pre gap hfull
      refine .inl ⟨fun _ h => absurd h List.not_mem_nil, ?_⟩
      rw [refTokens, replaceFrom, hfull, List.flatMap_nil, List.flatMap_nil, List.append_nil,
        List.append_nil, List.drop_left]
  | cons l ls ih =>
      intro pre gap hfull
      rw [List.flatMap_cons] at hfull
      by_cases href : l.terminal = .LABEL_REF
      · rw [refTokens, if_pos href]
        cases hdict : dict labels l.label with
        | none =>
            refine .inr ⟨l, List.mem_cons_self, href, hdict, l.token (pre.length + gap.length), rfl, ?_⟩
            rw [replaceFrom]
            change dict labels (inner (l.token (pre.length + gap.length)).value) = none at hdict
            rw [hdict]
            rfl
        | some n =>
            have hslice : slice full pre.length (pre.length + gap.length) = gap := by
              rw [hfull]
              exact slice_append pre gap _
            have hlength : pre.length + gap.length + l.text.length = (pre ++ gap ++ l.text).length := by
              rw [List.length_append, List.length_append]
            have hreplace : replaceFrom full labels pre.length
                (l.token (pre.length + gap.length) ::
                  refTokens (pre.length + gap.length + l.text.length) ls) =
                (replaceFrom full labels (pre ++ gap ++ l.text).length
                  (refTokens ((pre ++ gap ++ l.text).length + ([] : List Char).length) ls)).map
                    (fun parts => gap ++ (toString n).toList ++ parts) := by
              rw [replaceFrom]
              change dict labels (inner (l.token (pre.length + gap.length)).value) = some n at hdict
              rw [hdict, List.length_nil, Nat.add_zero, ← hlength]
              dsimp only [Lexeme.token]
              rw [hslice]
              cases replaceFrom full labels (pre.length + gap.length + l.text.length)
                (refTokens (pre.length + gap.length + l.text.length) ls) <;> rfl
            rcases ih (pre ++ gap ++ l.text) [] (by rw [hfull]; simp) with
              ⟨hknown, hok⟩ | ⟨l', hl', href', hdict', token, hvalue, herror⟩
            · refine .inl ⟨fun l' hl' h => ?_, ?_⟩
              · rcases List.mem_cons.mp hl' with rfl | hl'
                · rw [hdict]
                  exact Option.some_ne_none n
                · exact hknown l' hl' h
              · rw [hreplace, hok, List.flatMap_cons, Lexeme.replaced, if_pos href, hdict]
                simp [Except.map]
            · refine .inr ⟨l', List.mem_cons_of_mem _ hl', href', hdict', token, hvalue, ?_⟩
              rw [hreplace, herror]
              rfl
      · rw [refTokens, if_neg href]
        have hlength : pre.length + gap.length + l.text.length = pre.length +
            (gap ++ l.text).length := by
          rw [List.length_append, Nat.add_assoc]
        rw [hlength]
        rcases ih pre (gap ++ l.text) (by rw [hfull]; simp) with ⟨hknown, hok⟩ | ⟨l', hl', hrest⟩
        · refine .inl ⟨fun l' hl' h => ?_, ?_⟩
          · rcases List.mem_cons.mp hl' with rfl | hl'
            · exact absurd h href
            · exact hknown l' hl' h
          · rw [hok, List.flatMap_cons, Lexeme.replaced, if_neg href, List.append_assoc]
        · exact .inr ⟨l', List.mem_cons_of_mem _ hl', hrest⟩

theorem dict_eq_of_dictEq {d d' : List (String × Nat)} (h : dictEq d d' = true) (key : String) :
    dict d' key = dict d key := by
  simp only [dictEq, Bool.and_eq_true, List.all_eq_true, decide_eq_true_eq] at h
  have hnone {d : List (String × Nat)} (hd : ∀ e ∈ d, e.1 ≠ key) : dict d key = none := by
    rw [dict, List.lookup_eq_none_iff]
    intro e he
    simpa using (hd e (List.mem_reverse.mp he)).symm
  by_cases hd : ∃ e ∈ d, e.1 = key
  · obtain ⟨e, he, rfl⟩ := hd
    exact h.1 e he
  · by_cases hd' : ∃ e ∈ d', e.1 = key
    · obtain ⟨e, he, rfl⟩ := hd'
      exact (h.2 e he).symm
    · rw [hnone fun e he heq => hd ⟨e, he, heq⟩, hnone fun e he heq => hd' ⟨e, he, heq⟩]

theorem checkReplaced_ok {u : Unicode} {new : String} {ast : AST} {labels : List (String × Nat)}
    (h : checkReplaced u new ast labels = .ok ()) :
    ∃ newAst newLabels, parseMlog new = some newAst ∧ countStatements newAst = countStatements ast ∧
      iterLabels u newAst = .ok newLabels ∧ ∀ key, dict newLabels key = dict labels key := by
  unfold checkReplaced at h
  split at h
  · cases h
  · rename_i newAst hparse
    split at h
    · cases h
    · rename_i hcount
      split at h
      · cases h
      · rename_i newLabels hlabels
        split at h
        · exact ⟨newAst, newLabels, hparse, (not_not.mp hcount).symm, hlabels, dict_eq_of_dictEq ‹_›⟩
        · cases h

/-- For a text that `parse_mlog` accepts, `replace_symbolic_labels` fails at an unknown label.
Otherwise the new text has the number of the label for each reference, and every other lexeme as it
was. With `check` it has as many statements and the same labels, or there is an error. -/
theorem replaceSymbolicLabels_spec (u : Unicode) {text : String} {ast : AST}
    (h : parseMlog text = some ast) (labels : List (String × Nat)) (check : Bool) :
    ∃ ls, lex text.toList.length .line text.toList = some ls ∧ text.toList = ls.flatMap Lexeme.text ∧
      (¬Known labels ls → ∃ l ∈ ls, l.terminal = .LABEL_REF ∧ dict labels l.label = none ∧ ∃ token,
        token.value = String.ofList l.text ∧
          replaceSymbolicLabels u text ast labels check = .error (.unknownLabel l.label token)) ∧
      (Known labels ls → check = false →
        replaceSymbolicLabels u text ast labels check =
          .ok (String.ofList (ls.flatMap (Lexeme.replaced labels)))) ∧
      ∀ new, replaceSymbolicLabels u text ast labels check = .ok new →
        Known labels ls ∧ new.toList = ls.flatMap (Lexeme.replaced labels) ∧
          (check = true → ∃ newAst newLabels, parseMlog new = some newAst ∧
            countStatements newAst = countStatements ast ∧ iterLabels u newAst = .ok newLabels ∧
              ∀ key, dict newLabels key = dict labels key) := by
  obtain ⟨ls, hlex, rfl⟩ := Option.map_eq_some_iff.mp h
  have hls := lex_sound hlex
  have htext := hls.flatMap_text
  have hrefs : iterLabelRefs (build 0 ls).2 = refTokens 0 ls := by
    obtain ⟨hrefs, hargs⟩ := hls.refsOf_build 0
    rw [← hrefs, refsOf, hargs (fun h => by cases h), List.nil_append]
  refine ⟨ls, hlex, htext, ?_⟩
  unfold replaceSymbolicLabels
  rw [hrefs]
  rcases replaceFrom_refTokens []
    [] htext with ⟨hknown, hok⟩ | ⟨l, hl, href, hdict, token, hvalue, herror⟩
  · have hok : replaceFrom text.toList labels 0 (refTokens 0 ls) =
      .ok (ls.flatMap (Lexeme.replaced labels)) := hok
    rw [hok]
    refine ⟨fun h => absurd hknown h, ?_, fun new hnew => ⟨hknown, ?_⟩⟩
    · rintro - rfl
      rfl
    · cases check with
      | false =>
          cases hnew
          exact ⟨String.toList_ofList, fun h => by cases h⟩
      | true =>
          dsimp only [Bind.bind, Except.bind] at hnew
          rw [if_pos rfl] at hnew
          split at hnew
          · cases hnew
          · rename_i hcheck
            cases hnew
            exact ⟨String.toList_ofList, fun _ => checkReplaced_ok hcheck⟩
  · have herror : replaceFrom text.toList labels 0 (refTokens 0 ls) =
      .error (.unknownLabel l.label token) := herror
    rw [herror]
    exact ⟨fun _ => ⟨l, hl, href, hdict, token, hvalue, rfl⟩, fun h => absurd hdict (h l hl href),
      fun new hnew => by cases hnew⟩

theorem replaceSymbolicLabels_spec_loop :
    ∃ ls, lex loopText.toList.length .line loopText.toList = some ls ∧
    loopText.toList = ls.flatMap Lexeme.text ∧
      (¬Known [("a", 0)] ls → ∃ l ∈ ls, l.terminal = .LABEL_REF ∧
        dict [("a", 0)] l.label = none ∧ ∃ token,
        token.value = String.ofList l.text ∧
          replaceSymbolicLabels asciiUnicode loopText loopAst
          [("a", 0)] true = .error (.unknownLabel l.label token)) ∧
      (Known [("a", 0)] ls → true = false →
        replaceSymbolicLabels asciiUnicode loopText loopAst [("a", 0)] true =
          .ok (String.ofList (ls.flatMap (Lexeme.replaced [("a", 0)])))) ∧
      ∀ new, replaceSymbolicLabels asciiUnicode loopText loopAst [("a", 0)] true = .ok new →
        Known [("a", 0)] ls ∧ new.toList = ls.flatMap (Lexeme.replaced [("a", 0)]) ∧
          (true = true → ∃ newAst newLabels, parseMlog new = some newAst ∧
            countStatements newAst = countStatements loopAst ∧
            iterLabels asciiUnicode newAst = .ok newLabels ∧
              ∀ key, dict newLabels key = dict [("a", 0)] key) :=
  replaceSymbolicLabels_spec asciiUnicode (by decide) [("a", 0)] true

end Mlogv32.Parser
