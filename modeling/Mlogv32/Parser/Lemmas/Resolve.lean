import Mlogv32.Parser.Lemmas.Relex

/-!
# The nodes of the new text

What `build` makes of the resolved lexemes: the nodes of the text, with the numbers for the
references. `iter_labels` says the same about both.
-/

namespace Mlogv32.Parser
open Python

variable {labels : List (String × Nat)} {s : List Char} {ctx : Context} {ls : List Lexeme}

/-! ## Resolved nodes -/

def Token.unplaced (t : Token) : Token := { t with startPos := none, endPos := none }

theorem Token.value_of_unplaced {t t' : Token} (h : t'.unplaced = t.unplaced) : t'.value = t.value := by
  have hvalue : t'.unplaced.value = t.unplaced.value := by rw [h]
  exact hvalue

/-- A reference as the number of its label. -/
def Token.resolve (labels : List (String × Nat)) (t : Token) : Token :=
  if t.type = .LABEL_REF then
    { t with type := .TOKEN, value := toString ((dict labels (inner t.value)).getD 0) }
  else t

/-- The node with the numbers for the references among the arguments of a statement. -/
def ASTNode.resolve (labels : List (String × Nat)) : ASTNode → ASTNode
  | label name => .label name
  | statement st => .statement { st with args := st.args.map (Token.resolve labels) }
  | directive name args => .directive name args

/-- The node without positions. -/
def ASTNode.unplaced : ASTNode → ASTNode
  | label name => .label name.unplaced
  | statement st => .statement ⟨st.name.unplaced, st.args.map Token.unplaced⟩
  | directive name args => .directive name.unplaced (args.map Token.unplaced)

/-- The nodes with the numbers for the references, whatever their positions. -/
def Resolved (labels : List (String × Nat)) (ast ast' : AST) : Prop :=
  ast'.map ASTNode.unplaced = ast.map fun node => (node.resolve labels).unplaced

theorem Resolved.nil {ast' : AST} (h : Resolved labels [] ast') : ast' = [] :=
  List.map_eq_nil_iff.mp h

theorem Resolved.cons {node : ASTNode} {ast ast' : AST} (h : Resolved labels (node :: ast) ast') :
    ∃ node' rest, ast' = node' :: rest ∧ node'.unplaced = (node.resolve labels).unplaced ∧
      Resolved labels ast rest := List.map_eq_cons_iff.mp h

theorem resolved_cons {node node' : ASTNode} {ast ast' : AST}
    (hnode : node'.unplaced = (node.resolve labels).unplaced) (h : Resolved labels ast ast') :
    Resolved labels (node :: ast) (node' :: ast') := congrArg₂ List.cons hnode h

theorem Token.resolve_of_not_isRef {t : Token} (h : IsRef t = false) : t.resolve labels = t := by
  unfold resolve
  rw [if_neg (by simpa [IsRef] using h)]

theorem Lexeme.resolve_token (labels : List (String × Nat)) (l : Lexeme) (pos pos' : Nat) :
    ((l.resolve labels).token pos').unplaced = ((l.token pos).resolve labels).unplaced := by
  by_cases href : l.terminal = .LABEL_REF
  · have htype : (l.token pos).type = .LABEL_REF := by rw [Lexeme.token, href]; rfl
    rw [Token.resolve, if_pos htype, Lexeme.resolve, if_pos href, Lexeme.replaced, if_pos href]
    simp only [Lexeme.token, Token.unplaced, String.ofList_toList]
    rfl
  · have hnot : IsRef (l.token pos) = false := by rw [token_isRef, decide_eq_false href]
    rw [Token.resolve_of_not_isRef hnot, Lexeme.resolve, if_neg href]
    rfl

theorem map_resolve_of_filter {ts : List Token} (h : ts.filter IsRef = []) :
    ts.map (fun t => (t.resolve labels).unplaced) = ts.map Token.unplaced := by
  refine List.map_congr_left fun t ht => ?_
  have hnot : IsRef t = false := by
    rw [← Bool.not_eq_true]
    exact List.filter_eq_nil_iff.mp h t ht
  rw [Token.resolve_of_not_isRef hnot]

/-! ## build -/

theorem build_word {l : Lexeme} {pos : Nat} (hctx : l.ctx ≠ .line)
    (h : l.terminal ∉ [Terminal.WS, .COMMENT, .NEWLINE]) :
    build pos (l :: ls) =
      (l.token pos :: (build (pos + l.text.length) ls).1, (build (pos + l.text.length) ls).2) := by
  obtain ⟨ctx, terminal, text⟩ := l
  cases ctx with
  | line => exact absurd rfl hctx
  | label | statement | directive | directiveArgs =>
      cases terminal with
      | WS | COMMENT | NEWLINE => simp at h
      | STRING | LABEL | LABEL_REF | TOKEN | DIRECTIVE | directiveName => rfl

theorem build_directive_nil {l : Lexeme} {pos : Nat} (hctx : l.ctx = .line)
    (h : l.terminal = .DIRECTIVE) (hargs : (build (pos + l.text.length) ls).1 = []) :
    build pos (l :: ls) = ([], (build (pos + l.text.length) ls).2) := by
  obtain ⟨ctx, terminal, text⟩ := l
  subst h hctx
  simp only [build, hargs]

theorem build_directive_cons {l : Lexeme} {pos : Nat} (hctx : l.ctx = .line)
    (h : l.terminal = .DIRECTIVE) {name : Token} {args : List Token}
    (hargs : (build (pos + l.text.length) ls).1 = name :: args) :
    build pos (l :: ls) = ([], .directive name args :: (build (pos + l.text.length) ls).2) := by
  obtain ⟨ctx, terminal, text⟩ := l
  subst h hctx
  simp only [build, hargs]

/-- The resolved lexemes make the resolved nodes. -/
theorem Lexes.build_resolve (labels : List (String × Nat)) (h : Lexes ctx s ls) : ∀ pos pos',
    (build pos' (ls.map (Lexeme.resolve labels))).1.map Token.unplaced =
      (build pos ls).1.map (fun t => (t.resolve labels).unplaced) ∧
    Resolved labels (build pos ls).2 (build pos' (ls.map (Lexeme.resolve labels))).2 := by
  induction h with
  | nil => exact fun _ _ => ⟨rfl, rfl⟩
  | @cons ctx s l rest ls hread hls ih =>
      intro pos pos'
      have hmem := Context.read_mem hread
      have hctx := Context.read_ctx hread
      obtain ⟨hargs, hnodes⟩ :=
        ih (pos + l.text.length) (pos' + (l.resolve labels).text.length)
      have htoken := l.resolve_token labels pos pos'
      have hctx' : (l.resolve labels).ctx = ctx := by
        unfold Lexeme.resolve
        split_ifs <;> exact hctx
      have hkeep (hne : l.terminal ≠ .LABEL_REF) : l.resolve labels = l := if_neg hne
      rw [List.map_cons]
      by_cases hskip : l.terminal = .WS ∨ l.terminal = .COMMENT
      · have hne : l.terminal ≠ .LABEL_REF := by rcases hskip with h | h <;> rw [h] <;> decide
        rw [hkeep hne] at hargs hnodes ⊢
        rw [build_skip hskip, build_skip hskip]
        exact ⟨hargs, hnodes⟩
      by_cases hnewline : l.terminal = .NEWLINE
      · have hne : l.terminal ≠ .LABEL_REF := by rw [hnewline]; decide
        rw [hkeep hne] at hnodes ⊢
        rw [build_newline hnewline, build_newline hnewline]
        exact ⟨rfl, hnodes⟩
      by_cases hline : ctx = .line
      · subst hline
        have hne : l.terminal ≠ .LABEL_REF := by
          intro href
          rw [href] at hmem
          exact absurd hmem (by decide)
        rw [hkeep hne] at htoken hargs hnodes ⊢
        cases hterminal : l.terminal with
        | LABEL =>
            rw [build_label hctx hterminal, build_label hctx hterminal]
            exact ⟨rfl, resolved_cons rfl hnodes⟩
        | TOKEN =>
            rw [build_statement hctx hterminal, build_statement hctx hterminal]
            refine ⟨rfl, resolved_cons ?_ hnodes⟩
            simp only [ASTNode.unplaced, ASTNode.resolve, List.map_map]
            exact congrArg ASTNode.statement (congrArg (Statement.mk _) hargs)
        | DIRECTIVE =>
            have hfilter := (hls.refsOf_build (pos + l.text.length)).2
              (by rw [hterminal]; exact fun h => by cases h)
            rw [map_resolve_of_filter hfilter] at hargs
            cases hr : (build (pos + l.text.length) ls).1 with
            | nil =>
                rw [hr, List.map_nil, List.map_eq_nil_iff] at hargs
                rw [build_directive_nil hctx hterminal hr, build_directive_nil hctx hterminal hargs]
                exact ⟨rfl, hnodes⟩
            | cons name args =>
                rw [hr] at hargs
                obtain ⟨name', args', hr', hname, hargs⟩ := List.map_eq_cons_iff.mp hargs
                rw [build_directive_cons hctx hterminal hr, build_directive_cons hctx hterminal hr']
                refine ⟨rfl, resolved_cons ?_ hnodes⟩
                simp only [ASTNode.unplaced, ASTNode.resolve, hname, hargs]
        | STRING | LABEL_REF | directiveName =>
            rw [hterminal] at hmem
            exact absurd hmem (by decide)
        | WS | COMMENT => exact absurd (by simp [hterminal]) hskip
        | NEWLINE => exact absurd hterminal hnewline
      · have hword : l.terminal ∉ [Terminal.WS, .COMMENT, .NEWLINE] := by
          simp only [List.mem_cons, List.not_mem_nil, or_false, not_or]
          exact ⟨fun h => hskip (.inl h), fun h => hskip (.inr h), hnewline⟩
        have hword' : (l.resolve labels).terminal ∉ [Terminal.WS, .COMMENT, .NEWLINE] := by
          unfold Lexeme.resolve
          split_ifs
          · change Terminal.TOKEN ∉ _
            decide
          · exact hword
        rw [build_word (hctx ▸ hline) hword, build_word (hctx' ▸ hline) hword']
        exact ⟨congrArg₂ List.cons htoken hargs, hnodes⟩

/-! ## Words -/

def Token.word (t : Token) : TokenType × String := (t.type, t.value)

def ASTNode.words : ASTNode → List (TokenType × String)
  | label name => [(name.type, name.value ++ ":")]
  | statement st => st.name.word :: st.args.map Token.word
  | directive name args => name.word :: args.map Token.word

/-- Lexemes in the order of the grammar, whatever stands between them. -/
inductive Chain : Context → List Lexeme → Prop where
  | nil : Chain .line []
  | cons {ctx : Context} {l : Lexeme} {ls : List Lexeme} : l.ctx = ctx → l.terminal ∈ ctx.terminals →
      (l.terminal = .LABEL → l.text.getLast? = some ':') → Chain (ctx.next l.terminal) ls →
      Chain ctx (l :: ls)

theorem Lexes.chain (h : Lexes ctx s ls) : Chain ctx ls := by
  induction h with
  | nil => exact .nil
  | cons hread _ ih =>
      refine .cons (Context.read_ctx hread) (Context.read_mem hread) (fun hlabel => ?_) ih
      obtain ⟨-, hmatches⟩ := Context.read_matches hread
      rw [hlabel] at hmatches
      obtain ⟨x, hx, -⟩ := hmatches
      rw [hx, List.getLast?_concat]

theorem Chain.resolve (labels : List (String × Nat)) (h : Chain ctx ls) :
    Chain ctx (ls.map (Lexeme.resolve labels)) := by
  induction h with
  | nil => exact .nil
  | @cons ctx l ls hctx hmem hlabel _ ih =>
      have hnext := Lexeme.next_resolve labels ctx l hmem
      refine .cons ?_ ?_ ?_ (hnext ▸ ih)
      · unfold Lexeme.resolve
        split_ifs <;> exact hctx
      · unfold Lexeme.resolve
        split_ifs with href
        · rw [href] at hmem
          rw [Context.statement_of_ref hmem]
          change Terminal.TOKEN ∈ _
          decide
        · exact hmem
      · unfold Lexeme.resolve
        split_ifs
        · exact fun h => by cases h
        · exact hlabel

/-- At the beginning of a line, and behind a label, there are no arguments. -/
theorem Chain.args_eq_nil (h : Chain ctx ls) (hctx : ctx = .line ∨ ctx = .label) :
    ∀ pos, (build pos ls).1 = [] := by
  induction h with
  | nil => exact fun _ => rfl
  | @cons ctx l ls hlctx hmem _ _ ih =>
      intro pos
      by_cases hskip : l.terminal = .WS ∨ l.terminal = .COMMENT
      · have hnext : ctx.next l.terminal = ctx := by
          rcases hskip with h | h <;> rw [h] <;> cases ctx <;> rfl
        rw [hnext] at ih
        rw [build_skip hskip]
        exact ih hctx _
      cases hterminal : l.terminal with
      | WS | COMMENT => exact absurd (by simp [hterminal]) hskip
      | NEWLINE => rw [build_newline hterminal]
      | LABEL =>
          rw [hterminal] at hmem
          rcases hctx with rfl | rfl
          · rw [build_label hlctx hterminal]
          · exact absurd hmem (by decide)
      | TOKEN =>
          rw [hterminal] at hmem
          rcases hctx with rfl | rfl
          · rw [build_statement hlctx hterminal]
          · exact absurd hmem (by decide)
      | DIRECTIVE =>
          rw [hterminal] at hmem
          rcases hctx with rfl | rfl
          · cases hargs : (build (pos + l.text.length) ls).1 with
            | nil => rw [build_directive_nil hlctx hterminal hargs]
            | cons => rw [build_directive_cons hlctx hterminal hargs]
          · exact absurd hmem (by decide)
      | STRING | LABEL_REF | directiveName =>
          rw [hterminal] at hmem
          rcases hctx with rfl | rfl <;> exact absurd hmem (by decide)

/-- The words of the nodes are those of the lexemes. -/
theorem Chain.words_build (h : Chain ctx ls) : ∀ pos,
    (build pos ls).1.map Token.word ++ (build pos ls).2.flatMap ASTNode.words = words ls := by
  induction h with
  | nil => exact fun _ => rfl
  | @cons ctx l ls hctx hmem hlabel hls ih =>
      intro pos
      have ih := ih (pos + l.text.length)
      have hskip (h : l.terminal ∈ [Terminal.DIRECTIVE, .COMMENT, .NEWLINE, .WS]) :
          words (l :: ls) = words ls := List.filterMap_cons_none (if_pos h)
      have hword (h : l.terminal ∉ [Terminal.DIRECTIVE, .COMMENT, .NEWLINE, .WS]) :
          words (l :: ls) = (l.token pos).word :: words ls := List.filterMap_cons_some (if_neg h)
      by_cases hblank : l.terminal = .WS ∨ l.terminal = .COMMENT
      · rw [build_skip hblank, hskip (by rcases hblank with h | h <;> simp [h])]
        exact ih
      by_cases hnewline : l.terminal = .NEWLINE
      · have hnil : (build (pos + l.text.length) ls).1 = [] := by
          refine hls.args_eq_nil (.inl ?_) _
          rw [hnewline]
          cases ctx <;> rfl
        rw [hnil] at ih
        rw [build_newline hnewline, hskip (by simp [hnewline])]
        exact ih
      by_cases hline : ctx = .line
      · subst hline
        cases hterminal : l.terminal with
        | LABEL =>
            have hnil : (build (pos + l.text.length) ls).1 = [] :=
              hls.args_eq_nil (.inr (by rw [hterminal]; rfl)) _
            obtain ⟨y, hy⟩ := List.getLast?_eq_some_iff.mp (hlabel hterminal)
            have hvalue : (labelToken (l.token pos)).value ++ ":" = (l.token pos).value := by
              simp only [labelToken, Lexeme.token, hy, String.toList_ofList, List.dropLast_concat]
              rw [String.ofList_append]
            rw [hnil, List.map_nil, List.nil_append] at ih
            rw [build_label hctx hterminal, hword (by simp [hterminal]), List.map_nil,
              List.nil_append, List.flatMap_cons, ih, ASTNode.words, hvalue]
            rfl
        | TOKEN =>
            rw [build_statement hctx hterminal, hword (by simp [hterminal]), ← ih, List.map_nil,
              List.nil_append, List.flatMap_cons]
            rfl
        | DIRECTIVE =>
            rw [hskip (by simp [hterminal]), ← ih]
            cases hargs : (build (pos + l.text.length) ls).1 with
            | nil =>
                rw [build_directive_nil hctx hterminal hargs]
            | cons name args =>
                rw [build_directive_cons hctx hterminal hargs, List.map_nil, List.nil_append,
                  List.flatMap_cons]
                rfl
        | STRING | LABEL_REF | directiveName =>
            rw [hterminal] at hmem
            exact absurd hmem (by decide)
        | WS | COMMENT => exact absurd (by simp [hterminal]) hblank
        | NEWLINE => exact absurd hterminal hnewline
      · have hdirective : l.terminal ≠ .DIRECTIVE := by
          intro hdirective
          rw [hdirective] at hmem
          revert hmem hline
          cases ctx <;> decide
        have hmem' : l.terminal ∉ [Terminal.WS, .COMMENT, .NEWLINE] := by
          simp only [List.mem_cons, List.not_mem_nil, or_false, not_or]
          exact ⟨fun h => hblank (.inl h), fun h => hblank (.inr h), hnewline⟩
        rw [build_word (hctx ▸ hline) hmem', hword ?_, ← ih]
        · rfl
        · simp only [List.mem_cons, List.not_mem_nil, or_false, not_or] at hmem' ⊢
          exact ⟨hdirective, hmem'.2.1, hmem'.2.2, hmem'.1⟩

/-! ## iter_labels -/

/-- The same state, whatever the token for errors. -/
structure SameLabels (s s' : LabelState) : Prop where
  counter : s'.counter = s.counter
  lengthAssertion : s'.lengthAssertion.map (fun a => (a.1, a.2.1)) =
    s.lengthAssertion.map (fun a => (a.1, a.2.1))
  yields : s'.yields = s.yields

theorem expectInt_congr {u : Unicode} {n n' : Token} {predicate : Int → Bool} {description : String}
    {v : Int} (hvalue : n'.value = n.value) (h : expectInt u n predicate description = .ok v) :
    expectInt u n' predicate description = .ok v := by
  unfold expectInt at h ⊢
  rw [hvalue]
  split at h
  · split at h
    · rw [if_pos ‹_›]
      exact h
    · cases h
  · cases h

section Node
variable {u : Unicode} {s s' t : LabelState} {name n : Token} {args : List Token}

theorem LabelState.node_start {length : Int} (hname : name.value = "start_assert_length")
    (hclosed : s.lengthAssertion = none)
    (hlength : expectInt u n (fun v => 0 ≤ v) "length assertion" = .ok length) :
    s.node u (.directive name [n]) =
      .ok { s with lengthAssertion := some (length, s.counter, n) } := by
  simp only [LabelState.node, hname, hclosed, hlength]
  rfl

theorem LabelState.node_stop {want : Int} {start : Nat} (hname : name.value = "end_assert_length")
    (hopen : s.lengthAssertion = some (want, start, n)) (hwant : want = (s.counter : Int) - start) :
    s.node u (.directive name args) = .ok { s with lengthAssertion := none } := by
  simp [LabelState.node, hname, hopen, hwant]

theorem LabelState.node_count (hname : name.value = "assert_counter")
    (hcount : expectInt u n (fun _ => true) "value" = .ok (s.counter : Int)) :
    s.node u (.directive name [n]) = .ok s := by
  simp only [LabelState.node, hname, hcount]
  exact if_neg (by simp)

theorem LabelState.node_other (hstart : ∀ n, name.value = "start_assert_length" → args ≠ [n])
    (hend : name.value ≠ "end_assert_length")
    (hcount : ∀ n, name.value = "assert_counter" → args ≠ [n]) :
    s.node u (.directive name args) = .ok s := by
  unfold LabelState.node
  dsimp only
  split
  · exact absurd rfl (hstart _ ‹_›)
  · exact absurd ‹_› hend
  · exact absurd rfl (hcount _ ‹_›)
  · rfl

/-- A node and the node of the same words do the same. -/
theorem SameLabels.node (hs : SameLabels s s') {node node' : ASTNode}
    (hnode : node'.unplaced = (node.resolve labels).unplaced) (h : s.node u node = .ok t) :
    ∃ t', s'.node u node' = .ok t' ∧ SameLabels t t' := by
  have hcounter := hs.counter
  have hassertion := hs.lengthAssertion
  cases node with
  | label name =>
      cases node' with
      | label name' =>
          cases h
          have hunplaced : ASTNode.label name'.unplaced = .label name.unplaced := hnode
          have hvalue := Token.value_of_unplaced (ASTNode.label.inj hunplaced)
          refine ⟨_, rfl, hcounter, hassertion, ?_⟩
          dsimp only
          rw [hs.yields, hvalue, hcounter]
      | statement | directive => cases hnode
  | statement st =>
      cases node' with
      | statement st' =>
          cases h
          exact ⟨_, rfl, congrArg (· + 1) hcounter, hassertion, hs.yields⟩
      | label | directive => cases hnode
  | directive name args =>
      cases node' with
      | label | statement => cases hnode
      | directive name' args' =>
          have hunplaced : ASTNode.directive name'.unplaced (args'.map Token.unplaced) =
            .directive name.unplaced (args.map Token.unplaced) := hnode
          obtain ⟨hname, hargs⟩ := ASTNode.directive.inj hunplaced
          have hname := Token.value_of_unplaced hname
          have hone {args args' : List Token} {n : Token}
              (hargs : args'.map Token.unplaced = args.map Token.unplaced) (h : args = [n]) :
              ∃ n', args' = [n'] ∧ n'.value = n.value := by
            rw [h, List.map_singleton, List.map_eq_singleton_iff] at hargs
            obtain ⟨n', h', hn'⟩ := hargs
            exact ⟨n', h', Token.value_of_unplaced hn'⟩
          unfold LabelState.node at h
          dsimp only at h
          split at h
          · rename_i n hstart
            obtain ⟨n', rfl, hn'⟩ := hone hargs rfl
            cases hopen : s.lengthAssertion with
            | some => simp [hopen] at h
            | none =>
                rw [hopen] at h hassertion
                cases hlength : expectInt u n (fun v => 0 ≤ v) "length assertion" with
                | error e =>
                    rw [hlength] at h
                    cases h
                | ok length =>
                    rw [hlength] at h
                    cases h
                    refine ⟨_, LabelState.node_start (hname.trans hstart)
                      (Option.map_eq_none_iff.mp hassertion) (expectInt_congr hn' hlength),
                      hcounter, ?_, hs.yields⟩
                    simp [hcounter]
          · rename_i hend
            cases hopen : s.lengthAssertion with
            | none => simp [hopen] at h
            | some a =>
                obtain ⟨want, start, n⟩ := a
                rw [hopen] at h hassertion
                obtain ⟨a', hopen', ha'⟩ := Option.map_eq_some_iff.mp hassertion
                obtain ⟨want', start', n'⟩ := a'
                cases ha'
                dsimp only at h
                split at h
                · cases h
                · rename_i hwant
                  cases h
                  refine ⟨_, LabelState.node_stop (hname.trans hend) hopen' ?_, hcounter, rfl,
                    hs.yields⟩
                  rw [hcounter]
                  exact not_not.mp hwant
          · rename_i n hcount
            obtain ⟨n', rfl, hn'⟩ := hone hargs rfl
            cases hx : expectInt u n (fun _ => true) "value" with
            | error e =>
                rw [hx] at h
                cases h
            | ok want =>
                rw [hx] at h
                change (if (s.counter : Int) ≠ want then _ else _) = _ at h
                split at h
                · cases h
                · rename_i hwant
                  cases h
                  refine ⟨s', LabelState.node_count (hname.trans hcount) ?_, hs⟩
                  rw [expectInt_congr hn' hx, hcounter, not_not.mp hwant]
          · rename_i hend hstart hcount
            cases h
            refine ⟨s', LabelState.node_other (fun n' hname' hn' => ?_)
              (fun hname' => hend (hname.symm.trans hname')) (fun n' hname' hn' => ?_), hs⟩
            · obtain ⟨n, hn, -⟩ := hone hargs.symm hn'
              exact hstart n (hname.symm.trans hname') hn
            · obtain ⟨n, hn, -⟩ := hone hargs.symm hn'
              exact hcount n (hname.symm.trans hname') hn

theorem SameLabels.foldlM {ast : AST} : ∀ {ast' : AST} {s s' t : LabelState}, SameLabels s s' →
    Resolved labels ast ast' → ast.foldlM (LabelState.node u) s = .ok t →
      ∃ t', ast'.foldlM (LabelState.node u) s' = .ok t' ∧ SameLabels t t' := by
  induction ast with
  | nil =>
      intro ast' s s' t hs hast h
      rw [hast.nil]
      cases h
      exact ⟨s', rfl, hs⟩
  | cons node ast ih =>
      intro ast' s s' t hs hast h
      obtain ⟨node', rest, rfl, hnode, hrest⟩ := hast.cons
      rw [List.foldlM_cons] at h
      cases hx : s.node u node with
      | error e =>
          rw [hx] at h
          cases h
      | ok s₁ =>
          rw [hx] at h
          obtain ⟨s₁', hx', hs₁⟩ := hs.node hnode hx
          obtain ⟨t', hfold, ht⟩ := ih hs₁ hrest h
          refine ⟨t', ?_, ht⟩
          rw [List.foldlM_cons, hx']
          exact hfold

/-- `iter_labels` yields the same for the resolved nodes. -/
theorem Resolved.iterLabels {ast ast' : AST} {ys : List (String × Nat)} (hast : Resolved labels ast ast')
    (h : iterLabels u ast = .ok ys) : Parser.iterLabels u ast' = .ok ys := by
  unfold Parser.iterLabels at h ⊢
  cases hx : ast.foldlM (LabelState.node u) ⟨0, none, []⟩ with
  | error e =>
      rw [hx] at h
      cases h
  | ok t =>
      rw [hx] at h
      obtain ⟨t', hfold, ht⟩ := SameLabels.foldlM ⟨rfl, rfl, rfl⟩ hast hx
      have hassertion := ht.lengthAssertion
      rw [hfold]
      dsimp only [Bind.bind, Except.bind] at h ⊢
      split at h
      · cases h
      · rename_i hclosed
        rw [hclosed, Option.map_none, Option.map_eq_none_iff] at hassertion
        cases h
        rw [hassertion, ht.yields]

end Node

/-! ## What is counted and referred to -/

theorem Resolved.countStatements {ast : AST} : ∀ {ast' : AST}, Resolved labels ast ast' →
    countStatements ast' = Parser.countStatements ast := by
  induction ast with
  | nil =>
      intro ast' hast
      rw [hast.nil]
  | cons node ast ih =>
      intro ast' hast
      obtain ⟨node', rest, rfl, hnode, hrest⟩ := hast.cons
      have ih := ih hrest
      cases node <;> cases node' <;> first
      | cases hnode
      | simp only [Parser.countStatements, ih]

theorem Token.resolve_isRef (t : Token) : IsRef (t.resolve labels).unplaced = false := by
  unfold resolve IsRef
  split_ifs with h
  · rfl
  · exact decide_eq_false h

/-- The resolved nodes have no references. -/
theorem Resolved.iterLabelRefs {ast : AST} : ∀ {ast' : AST}, Resolved labels ast ast' →
    iterLabelRefs ast' = [] := by
  induction ast with
  | nil =>
      intro ast' hast
      rw [hast.nil]
      rfl
  | cons node ast ih =>
      intro ast' hast
      obtain ⟨node', rest, rfl, hnode, hrest⟩ := hast.cons
      have ih := ih hrest
      cases node' with
      | label | directive => exact ih
      | statement st' =>
          cases node with
          | label | directive => cases hnode
          | statement st =>
              have hunplaced : ASTNode.statement ⟨st'.name.unplaced, st'.args.map Token.unplaced⟩ =
                .statement ⟨st.name.unplaced,
                  (st.args.map (Token.resolve labels)).map Token.unplaced⟩ := hnode
              have hargs := (Statement.mk.inj (ASTNode.statement.inj hunplaced)).2
              rw [Parser.iterLabelRefs, ih, List.append_nil, List.filter_eq_nil_iff]
              intro t ht
              have hmem : t.unplaced ∈ st'.args.map Token.unplaced := List.mem_map_of_mem ht
              rw [hargs, List.map_map] at hmem
              obtain ⟨t₀, -, heq⟩ := List.mem_map.mp hmem
              have hnot : IsRef t.unplaced = false := heq ▸ t₀.resolve_isRef
              exact Bool.not_eq_true _ ▸ hnot

end Mlogv32.Parser
