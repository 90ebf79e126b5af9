import Mlogv32.Parser.Lemmas.Resolve

/-!
# Resolved labels

A text whose references are all to labels is parsed, with the numbers for them, to the same nodes
and labels, exactly if no reference is followed by a character of a token.
-/

namespace Mlogv32.Parser
open Python

variable {labels : List (String × Nat)} {ls : List Lexeme}

/-! ## References of a text -/

/-- No reference is followed by a character that the grammar allows in a token. -/
def RefsApart (text : String) (ast : AST) : Prop :=
  ∀ token ∈ iterLabelRefs ast, ∀ stop c, token.endPos = some stop →
    text.toList[stop]? = some c → isTokenChar c = false

/-- A reference to a label that is not in the table. -/
def HasUnknown (ast : AST) (labels : List (String × Nat)) : Prop :=
  ∃ token ∈ iterLabelRefs ast, dict labels (inner token.value) = none

theorem takeWhile_eq_nil_iff {p : Char → Bool} {s : List Char} :
    s.takeWhile p = [] ↔ ∀ c, s.head? = some c → p c = false := by
  cases s with
  | nil => simp
  | cons c s => simp [List.takeWhile_cons]

theorem refTokens_apart {full : List Char} : ∀ {ls : List Lexeme} (pre : List Char),
    full = pre ++ texts ls →
      ((∀ token ∈ refTokens pre.length ls, ∀ stop c, token.endPos = some stop →
        full[stop]? = some c → isTokenChar c = false) ↔ Apart ls) := by
  intro ls
  induction ls with
  | nil => exact fun _ _ => iff_of_true (fun _ h => absurd h List.not_mem_nil) trivial
  | cons l ls ih =>
      intro pre hfull
      have hnext : full = (pre ++ l.text) ++ texts ls := by
        rw [hfull, List.append_assoc]
        rfl
      have hlength : pre.length + l.text.length = (pre ++ l.text).length := by
        rw [List.length_append]
      have hhead : full[pre.length + l.text.length]? = (texts ls).head? := by
        rw [hnext, hlength, List.getElem?_append_right le_rfl, Nat.sub_self, List.head?_eq_getElem?]
      have hrest := ih (pre ++ l.text) hnext
      by_cases href : l.terminal = .LABEL_REF
      · rw [refTokens, if_pos href, List.forall_mem_cons, hlength, hrest, Apart, takeWhile_eq_nil_iff]
        refine and_congr_left fun _ => ⟨fun h _ c hc => h _ c rfl (hhead.trans hc), ?_⟩
        intro h stop c hstop hc
        cases hstop
        exact h href c (hhead.symm.trans hc)
      · rw [refTokens, if_neg href, hlength, hrest, Apart]
        exact ⟨fun h => ⟨fun h' => absurd h' href, h⟩, And.right⟩

theorem refTokens_known : ∀ {ls : List Lexeme} (pos : Nat),
    (∃ token ∈ refTokens pos ls, dict labels (inner token.value) = none) ↔ ¬Known labels ls := by
  intro ls
  induction ls with
  | nil => simp [refTokens, Known]
  | cons l ls ih =>
      intro pos
      have hcons : Known labels (l :: ls) ↔
        (l.terminal = .LABEL_REF → dict labels l.label ≠ none) ∧ Known labels ls :=
        List.forall_mem_cons
      rw [hcons, refTokens]
      split_ifs with href
      · rw [List.exists_mem_cons_iff, ih, not_and_or]
        refine or_congr_left ?_
        simp only [href, true_imp_iff, not_not]
        rfl
      · rw [ih]
        simp [href]

theorem iterLabelRefs_build {s : List Char} (h : Lexes .line s ls) :
    iterLabelRefs (build 0 ls).2 = refTokens 0 ls := by
  obtain ⟨hrefs, hargs⟩ := h.refsOf_build 0
  rw [← hrefs, refsOf, hargs (fun h => by cases h), List.nil_append]

/-! ## The words of the nodes -/

theorem ASTNode.words_unplaced (node : ASTNode) : node.unplaced.words = node.words := by
  cases node with
  | label => rfl
  | statement st => simp only [unplaced, words, List.map_map]; rfl
  | directive name args => simp only [unplaced, words, List.map_map]; rfl

theorem Resolved.words_eq {ast ast₁ ast₂ : AST} (h₁ : Resolved labels ast ast₁)
    (h₂ : Resolved labels ast ast₂) :
    ast₁.flatMap ASTNode.words = ast₂.flatMap ASTNode.words := by
  have hunplaced (ast : AST) :
      (ast.map ASTNode.unplaced).flatMap ASTNode.words = ast.flatMap ASTNode.words := by
    rw [List.flatMap_map]
    exact congrArg (List.flatMap · ast) (funext ASTNode.words_unplaced)
  rw [← hunplaced ast₁, ← hunplaced ast₂, h₁, h₂]

theorem Lexes.words_build {s : List Char} (h : Lexes .line s ls) :
    (build 0 ls).2.flatMap ASTNode.words = words ls := by
  have hwords := h.chain.words_build 0
  rwa [h.chain.args_eq_nil (.inl rfl), List.map_nil, List.nil_append] at hwords

/-! ## The new text -/

/-- The new text is the old one with the number of its label for each reference. It is parsed to the
same nodes, with the numbers for the references, and to the same labels, and it is not changed by a
second application. -/
structure Substitutes (u : Unicode) (text : String) (ast : AST) (labels : List (String × Nat))
    (check : Bool) (new : String) : Prop where
  ok : replaceSymbolicLabels u text ast labels check = .ok new
  lexemes : ∃ ls, lex text.toList.length .line text.toList = some ls ∧
    text.toList = ls.flatMap Lexeme.text ∧ new.toList = ls.flatMap (Lexeme.replaced labels)
  parse : ∃ newAst, parseMlog new = some newAst ∧ Resolved labels ast newAst ∧
    iterLabels u newAst = .ok labels ∧
      replaceSymbolicLabels u new newAst labels check = .ok new

/-- An unknown label is reported. -/
def RaisesUnknown (u : Unicode) (text : String) (ast : AST) (labels : List (String × Nat))
    (check : Bool) : Prop :=
  ∃ token, dict labels (inner token.value) = none ∧
    replaceSymbolicLabels u text ast labels check = .error (.unknownLabel (inner token.value) token)

theorem dictEq_self (d : List (String × Nat)) : dictEq d d = true := by
  simp [dictEq]

theorem checkReplaced_resolved {u : Unicode} {new : String} {ast newAst : AST}
    (hparse : parseMlog new = some newAst) (hcount : countStatements newAst = countStatements ast)
    (hlabels : iterLabels u newAst = .ok labels) : checkReplaced u new ast labels = .ok () := by
  simp [checkReplaced, hparse, hcount, hlabels, dictEq_self]

theorem checkReplaced_ne_unknown {u : Unicode} {new : String} {ast : AST} {label : String}
    {token : Token} : checkReplaced u new ast labels ≠ .error (.unknownLabel label token) := by
  intro h
  unfold checkReplaced at h
  split at h
  · cases h
  · split at h
    · cases h
    · split at h
      · cases h
      · split at h <;> cases h

theorem replaceSymbolicLabels_of_ok {u : Unicode} {text : String} {ast : AST} {parts : List Char}
    {check : Bool} (hparts : replaceFrom text.toList labels 0 (iterLabelRefs ast) = .ok parts)
    (hcheck : checkReplaced u (String.ofList parts) ast labels = .ok ()) :
    replaceSymbolicLabels u text ast labels check = .ok (String.ofList parts) := by
  unfold replaceSymbolicLabels
  rw [hparts]
  cases check with
  | false => rfl
  | true =>
      dsimp only [Bind.bind, Except.bind]
      rw [if_pos rfl, hcheck]
      rfl

/-- If every reference is to a label and apart, the new text is as it should be. -/
theorem Lexes.substitutes {u : Unicode} {text : String} {check : Bool}
    (h : Lexes .line text.toList ls) (hlabels : iterLabels u (build 0 ls).2 = .ok labels)
    (hok : replaceFrom text.toList labels 0 (refTokens 0 ls) =
      .ok (ls.flatMap (Lexeme.replaced labels))) (hapart : Apart ls) :
    Substitutes u text (build 0 ls).2 labels check
      (String.ofList (ls.flatMap (Lexeme.replaced labels))) := by
  have hnew := h.resolve labels hapart
  have hresolved := (h.build_resolve labels 0 0).2
  rw [texts_resolve] at hnew
  have hparse : parseMlog (String.ofList (ls.flatMap (Lexeme.replaced labels))) =
      some (build 0 (ls.map (Lexeme.resolve labels))).2 :=
    parseMlog_iff.mpr ⟨_, by rwa [String.toList_ofList], rfl⟩
  have hnewLabels := hresolved.iterLabels hlabels
  have hcount := hresolved.countStatements
  have hagain : replaceFrom (String.ofList (ls.flatMap (Lexeme.replaced labels))).toList labels 0
      (iterLabelRefs (build 0 (ls.map (Lexeme.resolve labels))).2) =
        .ok (ls.flatMap (Lexeme.replaced labels)) := by
    rw [hresolved.iterLabelRefs, replaceFrom, String.toList_ofList, List.drop_zero]
  refine ⟨replaceSymbolicLabels_of_ok ?_ (checkReplaced_resolved hparse hcount hnewLabels),
    ⟨ls, h.lex le_rfl, h.flatMap_text, String.toList_ofList⟩, _, hparse, hresolved, hnewLabels,
    replaceSymbolicLabels_of_ok hagain (checkReplaced_resolved hparse rfl hnewLabels)⟩
  rw [iterLabelRefs_build h]
  exact hok

/-- If the new text is as it should be, every reference is apart. -/
theorem Substitutes.apart {u : Unicode} {text new : String} {check : Bool}
    (hsub : Substitutes u text (build 0 ls).2 labels check new) (h : Lexes .line text.toList ls) :
    Apart ls := by
  obtain ⟨ls₀, hlex, -, hnew⟩ := hsub.lexemes
  obtain rfl : ls = ls₀ := Option.some.inj ((h.lex le_rfl).symm.trans hlex)
  obtain ⟨newAst, hparse, hresolved, -, -⟩ := hsub.parse
  obtain ⟨ls', hls', rfl⟩ := parseMlog_iff.mp hparse
  rw [hnew, ← texts_resolve] at hls'
  refine h.apart hls' ?_
  have hchain := (h.chain.resolve labels).words_build 0
  rw [(h.chain.resolve labels).args_eq_nil (.inl rfl), List.map_nil,
    List.nil_append] at hchain
  rw [← hls'.words_build, ← hchain]
  exact hresolved.words_eq (h.build_resolve labels 0 0).2

/-- An unknown label is reported exactly if there is one. Otherwise the numbers are in the table. -/
theorem Lexes.known_or_unknown (labels : List (String × Nat)) {text : String} (h : Lexes .line text.toList ls) :
    (¬HasUnknown (build 0 ls).2 labels ∧ replaceFrom text.toList labels 0 (refTokens 0 ls) =
        .ok (ls.flatMap (Lexeme.replaced labels))) ∨
      HasUnknown (build 0 ls).2 labels ∧ ∀ u check,
        RaisesUnknown u text (build 0 ls).2 labels check := by
  unfold HasUnknown
  rw [iterLabelRefs_build h, refTokens_known]
  have hrefs := @replaceFrom_refTokens text.toList labels ls [] [] h.flatMap_text
  rcases hrefs with ⟨hknown, hok⟩ | ⟨l, hl, href, hdict, token, hvalue, herror⟩
  · exact .inl ⟨not_not.mpr hknown, hok⟩
  · refine .inr ⟨fun hknown => hknown l hl href hdict, fun u check => ?_⟩
    have hlabel : inner token.value = l.label := by rw [hvalue, Lexeme.label]
    refine ⟨token, hlabel ▸ hdict, ?_⟩
    have herror : replaceFrom text.toList labels 0 (refTokens 0 ls) =
      .error (.unknownLabel l.label token) := herror
    unfold replaceSymbolicLabels
    rw [iterLabelRefs_build h, herror, hlabel]
    rfl

theorem Lexes.not_raisesUnknown {u : Unicode} {text : String} {check : Bool} {parts : List Char}
    (h : Lexes .line text.toList ls)
    (hok : replaceFrom text.toList labels 0 (refTokens 0 ls) = .ok parts) :
    ¬RaisesUnknown u text (build 0 ls).2 labels check := by
  rintro ⟨token, -, herror⟩
  unfold replaceSymbolicLabels at herror
  rw [iterLabelRefs_build h, hok] at herror
  cases check with
  | false => cases herror
  | true =>
      dsimp only [Bind.bind, Except.bind] at herror
      rw [if_pos rfl] at herror
      cases hcheck : checkReplaced u (String.ofList parts) (build 0 ls).2 labels with
      | ok =>
          rw [hcheck] at herror
          cases herror
      | error e =>
          rw [hcheck] at herror
          cases herror
          exact checkReplaced_ne_unknown hcheck

/-- `iter_labels` gives each label the number of the statements before it, and between the ends of a
length assertion there are as many statements as it says. `replace_symbolic_labels` reports an
unknown label or makes the text that it should, exactly if a label is unknown or no reference is
followed by a character of a token: else the number is a part of the next argument. -/
theorem replaceSymbolicLabels_iff (u : Unicode) :
    (∀ ast ys, iterLabels u ast = .ok ys → ys = nodeLabels 0 ast ∧
      ∀ pre node post n, ast = pre ++ node :: post → node.startsLength = some n →
        ∃ mid e post', post = mid ++ e :: post' ∧ e.endsLength = true ∧ NoLength mid ∧
          int10 u n.value.toList = some (countStatements mid : Int)) ∧
      ∀ text ast labels check, parseMlog text = some ast → iterLabels u ast = .ok labels →
        ((RaisesUnknown u text ast labels check ∨ ∃ new, Substitutes u text ast labels check new) ↔
          HasUnknown ast labels ∨ RefsApart text ast) := by
  refine ⟨fun ast ys h => ⟨iterLabels_labels h, fun pre node post n => iterLabels_encloses h⟩, ?_⟩
  intro text ast labels check hparse hlabels
  obtain ⟨ls, h, rfl⟩ := parseMlog_iff.mp hparse
  have hapart : RefsApart text (build 0 ls).2 ↔ Apart ls := by
    unfold RefsApart
    rw [iterLabelRefs_build h]
    exact refTokens_apart [] h.flatMap_text
  rw [hapart]
  rcases h.known_or_unknown labels with ⟨hknown, hok⟩ | ⟨hunknown, hraises⟩
  · constructor
    · rintro (hraises | ⟨new, hsub⟩)
      · exact absurd hraises (h.not_raisesUnknown hok)
      · exact .inr (hsub.apart h)
    · rintro (hunknown | hapart)
      · exact absurd hunknown hknown
      · exact .inr ⟨_, h.substitutes hlabels hok hapart⟩
  · exact iff_of_true (.inl (hraises u check)) (.inl hunknown)

theorem replaceSymbolicLabels_iff_loop :
    (RaisesUnknown asciiUnicode loopText loopAst [("a", 0)] true ∨
      ∃ new, Substitutes asciiUnicode loopText loopAst [("a", 0)] true new) ↔
        HasUnknown loopAst [("a", 0)] ∨ RefsApart loopText loopAst :=
  (replaceSymbolicLabels_iff asciiUnicode).2 loopText loopAst [("a", 0)] true (by decide) (by decide)

/-- The second argument of `jump` becomes a part of the number. -/
def mergedText : String := "a:\njump %a%b always\n"

def mergedAst : AST := (parseMlog mergedText).getD []

theorem merged_not_substituted :
    parseMlog mergedText = some mergedAst ∧ iterLabels asciiUnicode mergedAst = .ok [("a", 0)] ∧
      replaceSymbolicLabels asciiUnicode mergedText mergedAst [("a", 0)] true =
        .ok "a:\njump 0b always\n" ∧
      ¬(RaisesUnknown asciiUnicode mergedText mergedAst [("a", 0)] true ∨
        ∃ new, Substitutes asciiUnicode mergedText mergedAst [("a", 0)] true new) := by
  have hnew : replaceSymbolicLabels asciiUnicode mergedText mergedAst [("a", 0)] true =
    .ok "a:\njump 0b always\n" := by decide
  refine ⟨by decide, by decide, hnew, ?_⟩
  rintro (⟨token, -, herror⟩ | ⟨new, hsub⟩)
  · rw [hnew] at herror
    cases herror
  · obtain rfl : "a:\njump 0b always\n" = new := Except.ok.inj (hnew.symm.trans hsub.ok)
    obtain ⟨newAst, hparse, hresolved, -⟩ := hsub.parse
    have hwords : ((parseMlog "a:\njump 0b always\n").getD []).map ASTNode.unplaced ≠
      mergedAst.map fun node => (node.resolve [("a", 0)]).unplaced := by decide
    rw [hparse] at hwords
    exact hwords hresolved

end Mlogv32.Parser
