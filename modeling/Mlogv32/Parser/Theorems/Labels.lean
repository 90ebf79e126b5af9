import Mlogv32.Parser.Theorems.Split

/-!
# The labels that the parser finds

`iter_labels` numbers the statements and checks what the directives say about the numbers. For the
texts that are `Clear` its numbers are those of the game.
-/

namespace Mlogv32.Parser
open Python

/-! ## Directives -/

/-- The argument of `start_assert_length`. -/
def ASTNode.startsLength : ASTNode → Option Token
  | .directive name [n] => if name.value = "start_assert_length" then some n else none
  | _ => none

def ASTNode.endsLength : ASTNode → Bool
  | .directive name _ => name.value = "end_assert_length"
  | _ => false

/-- The argument of `assert_counter`. -/
def ASTNode.assertsCounter : ASTNode → Option Token
  | .directive name [n] => if name.value = "assert_counter" then some n else none
  | _ => none

/-- No length assertion starts or ends here. -/
def NoLength (ast : AST) : Prop := ∀ node ∈ ast, node.startsLength = none ∧ node.endsLength = false

/-- The labels, each with the number of the statements before it. -/
def nodeLabels : Nat → AST → List (String × Nat)
  | _, [] => []
  | n, .label name :: ast => (name.value, n) :: nodeLabels n ast
  | n, .statement _ :: ast => nodeLabels (n + 1) ast
  | n, .directive _ _ :: ast => nodeLabels n ast

/-! ## One node -/

variable {u : Unicode} {s s' : LabelState} {node : ASTNode} {ast : AST}

theorem expectInt_ok {n : Token} {predicate : Int → Bool} {description : String} {v : Int}
    (h : expectInt u n predicate description = .ok v) : int10 u n.value.toList = some v := by
  unfold expectInt at h
  split at h
  · split at h
    · cases h
      assumption
    · cases h
  · cases h

/-- What `iter_labels` does at a node. -/
inductive Visits (u : Unicode) (s : LabelState) : ASTNode → LabelState → Prop where
  | label (name : Token) : Visits u s (.label name)
      { s with yields := s.yields ++ [(name.value, s.counter)] }
  | statement (st : Statement) : Visits u s (.statement st) { s with counter := s.counter + 1 }
  | start {name : Token} {args : List Token} {n : Token} {length : Int}
      (hstart : (ASTNode.directive name args).startsLength = some n)
      (hend : (ASTNode.directive name args).endsLength = false)
      (hcounter : (ASTNode.directive name args).assertsCounter = none)
      (hclosed : s.lengthAssertion = none) (hlength : int10 u n.value.toList = some length) :
      Visits u s (.directive name args) { s with lengthAssertion := some (length, s.counter, n) }
  | stop {name : Token} {args : List Token} {length : Int} {start : Nat} {n : Token}
      (hstart : (ASTNode.directive name args).startsLength = none)
      (hend : (ASTNode.directive name args).endsLength = true)
      (hcounter : (ASTNode.directive name args).assertsCounter = none)
      (hopen : s.lengthAssertion = some (length, start, n))
      (hlength : length = (s.counter : Int) - start) :
      Visits u s (.directive name args) { s with lengthAssertion := none }
  | other {name : Token} {args : List Token}
      (hstart : (ASTNode.directive name args).startsLength = none)
      (hend : (ASTNode.directive name args).endsLength = false)
      (hcounter : ∀ n, (ASTNode.directive name args).assertsCounter = some n →
        int10 u n.value.toList = some (s.counter : Int)) :
      Visits u s (.directive name args) s

theorem LabelState.node_visits (h : s.node u node = .ok s') : Visits u s node s' := by
  cases node with
  | label name =>
      cases h
      exact .label name
  | statement st =>
      cases h
      exact .statement st
  | directive name args =>
      have hstop (hname : name.value = "end_assert_length") :
        (ASTNode.directive name args).startsLength = none ∧
          (ASTNode.directive name args).assertsCounter = none := by
        constructor
        · unfold ASTNode.startsLength
          split <;> simp_all
        · unfold ASTNode.assertsCounter
          split <;> simp_all
      unfold LabelState.node at h
      dsimp only at h
      split at h
      · rename_i n hname
        split at h
        · cases h
        · rename_i hclosed
          cases hx : expectInt u n (fun v => 0 ≤ v) "length assertion" with
          | error e =>
              rw [hx] at h
              cases h
          | ok length =>
              rw [hx] at h
              cases h
              refine .start ?_ ?_ ?_ hclosed (expectInt_ok hx) <;>
                simp [ASTNode.startsLength, ASTNode.endsLength, ASTNode.assertsCounter, hname]
      · rename_i hname
        split at h
        · cases h
        · rename_i want start n hopen
          split at h
          · cases h
          · rename_i hlength
            cases h
            exact .stop (hstop hname).1 (by simp [ASTNode.endsLength, hname])
              (hstop hname).2 hopen (not_not.mp hlength)
      · rename_i n hname
        cases hx : expectInt u n (fun _ => true) "value" with
        | error e =>
            rw [hx] at h
            cases h
        | ok want =>
            rw [hx] at h
            change (if (s.counter : Int) ≠ want then _ else _) = _ at h
            split at h
            · cases h
            · rename_i hwant
              cases h
              refine .other (by simp [ASTNode.startsLength, hname])
                (by simp [ASTNode.endsLength, hname]) fun n' hn' => ?_
              have hn : n' = n := by simpa [ASTNode.assertsCounter, hname] using hn'.symm
              rw [hn, expectInt_ok hx, not_not.mp hwant]
      · rename_i hstart hend hcounter
        cases h
        refine .other ?_ ?_ fun n hn => ?_
        · unfold ASTNode.startsLength
          split <;> simp_all
        · unfold ASTNode.endsLength
          simp_all
        · unfold ASTNode.assertsCounter at hn
          split at hn <;> simp_all

/-! ## A list of nodes -/

/-- `iter_labels` goes through the nodes. -/
inductive VisitsAll (u : Unicode) : LabelState → AST → LabelState → Prop where
  | nil {s : LabelState} : VisitsAll u s [] s
  | cons {s s₁ s' : LabelState} {node : ASTNode} {ast : AST} (hnode : Visits u s node s₁)
      (h : VisitsAll u s₁ ast s') :
      VisitsAll u s (node :: ast) s'

theorem visitsAll_of_foldlM :
    ∀ {ast : AST} {s s' : LabelState}, ast.foldlM (LabelState.node u) s = .ok s' →
    VisitsAll u s ast s' := by
  intro ast
  induction ast with
  | nil =>
      intro s s' h
      cases h
      exact .nil
  | cons node ast ih =>
      intro s s' h
      rw [List.foldlM_cons] at h
      cases hx : s.node u node with
      | error e =>
          rw [hx] at h
          cases h
      | ok s₁ =>
          rw [hx] at h
          exact .cons (LabelState.node_visits hx) (ih h)

theorem VisitsAll.split {pre : AST} :
    ∀ {s s' : LabelState} {node : ASTNode} {post : AST}, VisitsAll u s (pre ++ node :: post) s' →
    ∃ s₁ s₂, VisitsAll u s pre s₁ ∧ Visits u s₁ node s₂ ∧ VisitsAll u s₂ post s' := by
  induction pre with
  | nil =>
      intro s s' node post h
      cases h with
      | cons hnode h => exact ⟨_, _, .nil, hnode, h⟩
  | cons d pre ih =>
      intro s s' node post h
      cases h with
      | cons hd h =>
          obtain ⟨s₁, s₂, hpre, hnode, hpost⟩ := ih h
          exact ⟨s₁, s₂, .cons hd hpre, hnode, hpost⟩

theorem VisitsAll.counter (h : VisitsAll u s ast s') :
    s'.counter = s.counter + countStatements ast ∧ s'.yields = s.yields ++ nodeLabels s.counter ast := by
  induction h with
  | nil => simp [countStatements, nodeLabels]
  | cons hnode _ ih =>
      obtain ⟨hcounter, hyields⟩ := ih
      rw [hcounter, hyields]
      cases hnode with
      | label => simp [countStatements, nodeLabels]
      | statement =>
          refine ⟨?_, by simp [nodeLabels]⟩
          simp only [countStatements]
          omega
      | start | stop | other => simp [countStatements, nodeLabels]

/-- An open assertion is closed, and counts the statements up to there. -/
theorem VisitsAll.closes (h : VisitsAll u s ast s') (hclosed : s'.lengthAssertion = none) :
    ∀ {length : Int} {start : Nat} {n : Token}, s.lengthAssertion = some (length, start, n) →
      ∃ mid e post, ast = mid ++ e :: post ∧ e.endsLength = true ∧ NoLength mid ∧
        (start : Int) + length = s.counter + countStatements mid := by
  induction h with
  | nil =>
      intro length start n hopen
      rw [hclosed] at hopen
      cases hopen
  | @cons s s₁ s' node ast hnode _ ih =>
      intro length start n hopen
      cases hnode with
      | label name =>
          obtain ⟨mid, e, post, rfl, he, hmid, hlength⟩ := ih hclosed hopen
          refine ⟨.label name :: mid, e, post, rfl, he, ?_, hlength⟩
          exact List.forall_mem_cons.mpr ⟨⟨rfl, rfl⟩, hmid⟩
      | statement st =>
          obtain ⟨mid, e, post, rfl, he, hmid, hlength⟩ := ih hclosed hopen
          refine ⟨.statement st :: mid, e, post, rfl, he,
            List.forall_mem_cons.mpr ⟨⟨rfl, rfl⟩, hmid⟩, ?_⟩
          simp only [countStatements] at hlength ⊢
          push_cast at hlength ⊢
          omega
      | start _ _ _ hnone =>
          rw [hnone] at hopen
          cases hopen
      | @stop name args _ _ _ _ hend _ hopen' hlength =>
          rw [hopen'] at hopen
          cases hopen
          refine ⟨[], .directive name args, ast, rfl, hend, fun _ h => absurd h List.not_mem_nil, ?_⟩
          simp only [countStatements]
          omega
      | @other name args hstart hend _ =>
          obtain ⟨mid, e, post, rfl, he, hmid, hlength⟩ := ih hclosed hopen
          exact ⟨.directive name args :: mid, e, post, rfl, he,
            List.forall_mem_cons.mpr ⟨⟨hstart, hend⟩, hmid⟩, hlength⟩

theorem VisitsAll.opened (h : VisitsAll u s ast s') (hopen : s'.lengthAssertion ≠ none) :
    (s.lengthAssertion ≠ none ∧ NoLength ast) ∨
      ∃ pre d mid n, ast = pre ++ d :: mid ∧ d.startsLength = some n ∧ NoLength mid := by
  induction h with
  | nil => exact .inl ⟨hopen, fun _ h => absurd h List.not_mem_nil⟩
  | @cons s s₁ s' node ast hnode _ ih =>
      rcases ih hopen with ⟨hs, hast⟩ | ⟨pre, d, mid, n, rfl, hd, hmid⟩
      · cases hnode with
        | label => exact .inl ⟨hs, List.forall_mem_cons.mpr ⟨⟨rfl, rfl⟩, hast⟩⟩
        | statement => exact .inl ⟨hs, List.forall_mem_cons.mpr ⟨⟨rfl, rfl⟩, hast⟩⟩
        | @start _ _ n _ hstart => exact .inr ⟨[], _, ast, n, rfl, hstart, hast⟩
        | stop => exact absurd rfl hs
        | other hstart hend => exact .inl ⟨hs, List.forall_mem_cons.mpr ⟨⟨hstart, hend⟩, hast⟩⟩
      · exact .inr ⟨node :: pre, d, mid, n, rfl, hd, hmid⟩

/-! ## iter_labels -/

theorem iterLabels_visits {ys : List (String × Nat)} (h : iterLabels u ast = .ok ys) :
    ∃ s', VisitsAll u ⟨0, none, []⟩ ast s' ∧ s'.lengthAssertion = none ∧ s'.yields = ys := by
  unfold iterLabels at h
  cases hx : ast.foldlM (LabelState.node u) ⟨0, none, []⟩ with
  | error e =>
      rw [hx] at h
      cases h
  | ok s' =>
      rw [hx] at h
      dsimp only [Bind.bind, Except.bind] at h
      split at h
      · cases h
      · rename_i hclosed
        cases h
        exact ⟨s', visitsAll_of_foldlM hx, hclosed, rfl⟩

theorem iterLabels_labels {ys : List (String × Nat)} (h : iterLabels u ast = .ok ys) :
    ys = nodeLabels 0 ast := by
  obtain ⟨s', hvisits, -, rfl⟩ := iterLabels_visits h
  exact hvisits.counter.2

/-- From a `start_assert_length` to its `end_assert_length` there are as many statements as it says.
-/
theorem iterLabels_encloses {ys : List (String × Nat)} (h : iterLabels u ast = .ok ys)
    {pre post : AST} {n : Token} (hast : ast = pre ++ node :: post) (hn : node.startsLength = some n) :
    ∃ mid e post', post = mid ++ e :: post' ∧ e.endsLength = true ∧ NoLength mid ∧
      int10 u n.value.toList = some (countStatements mid : Int) := by
  obtain ⟨s', hvisits, hclosed, -⟩ := iterLabels_visits h
  subst hast
  obtain ⟨s₁, s₂, hpre, hnode, hpost⟩ := hvisits.split
  cases hnode with
  | label | statement => cases hn
  | start hstart _ _ _ hlength =>
      obtain ⟨mid, e, post', rfl, he, hmid, heq⟩ := hpost.closes hclosed rfl
      refine ⟨mid, e, post', rfl, he, hmid, ?_⟩
      cases hn.symm.trans hstart
      rw [hlength]
      dsimp only at heq
      exact congrArg some (by omega)
  | stop hstart => cases hn.symm.trans hstart
  | other hstart => cases hn.symm.trans hstart

/-- What `iter_labels` accepts: each label has the number of the statements before it, each
`start_assert_length` has an `end_assert_length` behind it, the other way round, and as many
statements in between as it says, and each `assert_counter` gives the number of the next statement. -/
theorem iterLabels_sound (u : Unicode) (ast : AST) (ys : List (String × Nat))
    (h : iterLabels u ast = .ok ys) :
    ys = nodeLabels 0 ast ∧
      (∀ pre node post n, ast = pre ++ node :: post → node.startsLength = some n →
        ∃ mid e post', post = mid ++ e :: post' ∧ e.endsLength = true ∧ NoLength mid ∧
          int10 u n.value.toList = some (countStatements mid : Int)) ∧
      (∀ pre node post, ast = pre ++ node :: post → node.endsLength = true →
        ∃ pre' d mid n, pre = pre' ++ d :: mid ∧ d.startsLength = some n ∧ NoLength mid) ∧
      ∀ pre node post n, ast = pre ++ node :: post → node.assertsCounter = some n →
        int10 u n.value.toList = some (countStatements pre : Int) := by
  obtain ⟨s', hvisits, -, -⟩ := iterLabels_visits h
  refine ⟨iterLabels_labels h, fun pre node post n => iterLabels_encloses h, ?_, ?_⟩
  · rintro pre node post rfl hend
    obtain ⟨s₁, s₂, hpre, hnode, hpost⟩ := hvisits.split
    cases hnode with
    | label | statement => cases hend
    | start _ hend' => cases hend.symm.trans hend'
    | stop _ _ _ hopen =>
        refine (hpre.opened (by rw [hopen]; exact Option.some_ne_none _)).resolve_left fun h => h.1 rfl
    | other _ hend' => cases hend.symm.trans hend'
  · rintro pre node post n rfl hn
    obtain ⟨s₁, s₂, hpre, hnode, hpost⟩ := hvisits.split
    have hcounter := hpre.counter.1
    cases hnode with
    | label | statement => cases hn
    | start _ _ hnone => cases hn.symm.trans hnone
    | stop _ _ hnone => cases hn.symm.trans hnone
    | other _ _ hcount =>
        rw [hcount n hn, hcounter]
        exact congrArg some (by push_cast; omega)

/-- The characters outside ASCII are no digits. -/
def asciiUnicode : Unicode := ⟨fun _ => false, fun _ => none⟩

def textToken (value : String) : Token :=
  { type := .TOKEN, value := value, startPos := none, endPos := none }

def assertedAst : AST :=
  [.label (textToken "start"), .directive (textToken "start_assert_length") [textToken "1"],
    .statement ⟨textToken "stop", []⟩, .directive (textToken "end_assert_length") [],
    .directive (textToken "assert_counter") [textToken "1"], .label (textToken "end")]

theorem iterLabels_sound_asserted :
    [("start", 0), ("end", 1)] = nodeLabels 0 assertedAst ∧
      (∀ pre node post n, assertedAst = pre ++ node :: post → node.startsLength = some n →
        ∃ mid e post', post = mid ++ e :: post' ∧ e.endsLength = true ∧ NoLength mid ∧
          int10 asciiUnicode n.value.toList = some (countStatements mid : Int)) ∧
      (∀ pre node post, assertedAst = pre ++ node :: post → node.endsLength = true →
        ∃ pre' d mid n, pre = pre' ++ d :: mid ∧ d.startsLength = some n ∧ NoLength mid) ∧
      ∀ pre node post n, assertedAst = pre ++ node :: post → node.assertsCounter = some n →
        int10 asciiUnicode n.value.toList = some (countStatements pre : Int) :=
  iterLabels_sound asciiUnicode assertedAst [("start", 0), ("end", 1)] (by decide)

/-! ## The text of a label -/

theorem slice_append (a y b : List Char) : slice (a ++ y ++ b) a.length (a.length + y.length) = y := by
  rw [slice, List.append_assoc, List.drop_left, Nat.add_sub_cancel_left, List.take_left]

theorem Lexes.flatMap_text {ctx : Context} {t : List Char} {ls : List Lexeme} (h : Lexes ctx t ls) :
    t = ls.flatMap Lexeme.text := by
  induction h with
  | nil => rfl
  | cons hread _ ih => rw [List.flatMap_cons, ← ih, ← (Context.read_matches hread).1]

/-- A label is the text from its start to its end, without the colon. -/
def LabelAt (full : List Char) (name : Token) : Prop :=
  ∃ start stop, name.startPos = some start ∧ name.endPos = some stop ∧
  name.value.toList = (slice full start stop).dropLast

theorem build_labelAt {full : List Char} {name : Token} : ∀ {ls : List Lexeme} (pre : List Char),
    full = pre ++ ls.flatMap Lexeme.text → .label name ∈ (build pre.length ls).2 →
    LabelAt full name := by
  intro ls
  induction ls with
  | nil =>
      intro pre _ h
      cases h
  | cons l ls ih =>
      intro pre hfull h
      have hnext : full = (pre ++ l.text) ++ ls.flatMap Lexeme.text := by
        rw [hfull, List.flatMap_cons, List.append_assoc]
      have hrest (h : .label name ∈ (build (pre.length + l.text.length) ls).2) : LabelAt full name :=
        ih _ hnext (by rwa [List.length_append])
      unfold build at h
      dsimp only at h
      split at h
      · exact hrest h
      · exact hrest h
      · exact hrest h
      · rcases List.mem_cons.mp h with heq | h
        · cases heq
          refine ⟨pre.length, pre.length + l.text.length, rfl, rfl, ?_⟩
          rw [hnext, slice_append, labelToken, Lexeme.token, String.toList_ofList, String.toList_ofList]
        · exact hrest h
      · rcases List.mem_cons.mp h with heq | h
        · cases heq
        · exact hrest h
      · split at h
        · rcases List.mem_cons.mp h with heq | h
          · cases heq
          · exact hrest h
        · exact hrest h
      · exact hrest h

/-- A piece stands in the text where it starts. -/
def PieceAt (full : List Char) (p : Piece) : Prop := ∃ a b, full = a ++ p.text ++ b ∧ a.length = p.start

theorem items_pieceAt {full : List Char} {p : Piece} {t : List Char} :
    ∀ {m : Reading} {cur : Current} (pre : List Char),
    full = pre ++ t → (∀ start cs, cur = some (start, cs) → ∃ a, pre = a ++ cs.reverse ∧
      a.length = start) →
      .piece p ∈ items m cur pre.length t → PieceAt full p := by
  have hflush {cur : Current} {pre rest t : List Char} (hfull : full = pre ++ t)
      (hcur : ∀ start cs, cur = some (start, cs) → ∃ a, pre = a ++ cs.reverse ∧ a.length = start)
      (h : .piece p ∈ cur.flush rest) : PieceAt full p := by
    cases cur with
    | none => cases h
    | some r =>
        obtain ⟨a, hpre, hlength⟩ := hcur r.1 r.2 rfl
        simp only [Current.flush, List.mem_singleton, Item.piece.injEq] at h
        rw [h]
        exact ⟨a, t, by rw [hfull, hpre], hlength⟩
  have hpush {cur : Current} {pre : List Char} {c : Char}
      (hcur : ∀ start cs, cur = some (start, cs) → ∃ a, pre = a ++ cs.reverse ∧ a.length = start) :
      ∀ start cs, cur.push pre.length c = some (start, cs) → ∃ a, pre ++ [c] = a ++ cs.reverse ∧
      a.length = start := by
    intro start cs h
    cases cur with
    | some r =>
        cases h
        obtain ⟨a, hpre, hlength⟩ := hcur r.1 r.2 rfl
        exact ⟨a, by rw [hpre, List.reverse_cons, List.append_assoc], hlength⟩
    | none =>
        simp only [Current.push] at h
        split_ifs at h
        cases h
        exact ⟨pre, rfl, rfl⟩
  induction t with
  | nil =>
      intro m cur pre hfull hcur h
      cases m <;> exact hflush hfull hcur (by simpa only [items] using h)
  | cons c t ih =>
      intro m cur pre hfull hcur h
      have hnone : ∀ start cs, (none : Current) = some (start, cs) → ∃ a,
          pre ++ [c] = a ++ cs.reverse ∧ a.length = start :=
        fun _ _ h => by cases h
      have hnext : full = (pre ++ [c]) ++ t := by rw [hfull, List.append_assoc, List.singleton_append]
      have hlength : pre.length + 1 = (pre ++ [c]).length := by
        rw [List.length_append, List.length_singleton]
      cases m with
      | comment =>
          simp only [items, hlength] at h
          split_ifs at h <;> exact ih _ hnext hnone h
      | string =>
          simp only [items, hlength] at h
          exact ih _ hnext (hpush hcur) h
      | code =>
          simp only [items, hlength] at h
          split_ifs at h with hsep hhash hquote
          · rcases List.mem_append.mp h with h | h
            · exact hflush hfull hcur h
            · exact ih _ hnext hnone h
          · rcases List.mem_append.mp h with h | h
            · rcases List.mem_append.mp h with h | h
              · exact hflush hfull hcur h
              · cases cur <;> simp [Current.comment] at h
            · exact ih _ hnext hnone h
          · exact ih _ hnext (hpush hcur) h
          · exact ih _ hnext (hpush hcur) h

theorem PieceAt.trimEnd {full : List Char} {p : Piece} (h : PieceAt full p) :
    slice full p.start (p.start + (Parser.trimEnd p.text).length) = Parser.trimEnd p.text := by
  obtain ⟨a, b, hfull, hlength⟩ := h
  obtain ⟨y, hy⟩ := List.rdropWhile_prefix isBlank p.text
  rw [hfull, ← hlength, ← hy, List.append_assoc, List.append_assoc, ← List.append_assoc a]
  change slice (a ++ Parser.trimEnd p.text ++ (y ++ b)) _ _ = _
  rw [hy]
  exact slice_append a _ _

/-! ## The numbers of the game -/

/-- Nodes that stand where the pieces stand have the same labels and statements. -/
theorem nodeLabels_eq {full : List Char} {ast : AST} : ∀ {ps : List Piece} (n : Nat),
    ast.filterMap ASTNode.extent? = ps.map Piece.extent →
    (∀ name, .label name ∈ ast → LabelAt full name) →
      (∀ p ∈ ps, PieceAt full p) →
        (nodeLabels n ast).map (fun e => (e.1.toList, e.2)) = pieceLabels n ps ∧
          countStatements ast = (ps.filter fun p => !p.isLabel).length := by
  induction ast with
  | nil =>
      intro ps n heq _ _
      have hps : ps = [] := List.map_eq_nil_iff.mp heq.symm
      rw [hps]
      exact ⟨rfl, rfl⟩
  | cons node ast ih =>
      intro ps n heq hlabels hpieces
      have htail (name : Token) (h : .label name ∈ ast) : LabelAt full name :=
        hlabels name (List.mem_cons_of_mem _ h)
      cases node with
      | directive name args => exact ih n heq htail hpieces
      | label name =>
          cases ps with
          | nil => cases heq
          | cons p ps =>
              obtain ⟨hextent, heq⟩ := List.cons.inj heq
              obtain ⟨hrest, hcount⟩ := ih n heq htail fun p hp => hpieces p (List.mem_cons_of_mem _ hp)
              simp only [Piece.extent, Extent.mk.injEq] at hextent
              obtain ⟨hlabel, hstart, hstop⟩ := hextent
              obtain ⟨start, stop, hs, he, hvalue⟩ := hlabels name List.mem_cons_self
              rw [hs, Option.some.injEq] at hstart
              rw [he, Option.some.injEq] at hstop
              rw [hstart, hstop, (hpieces p List.mem_cons_self).trimEnd] at hvalue
              rw [nodeLabels, List.map_cons, hrest, hvalue, pieceLabels, ← hlabel,
                if_pos rfl, countStatements, hcount, List.filter_cons, ← hlabel]
              exact ⟨rfl, rfl⟩
      | statement st =>
          cases ps with
          | nil => cases heq
          | cons p ps =>
              obtain ⟨hextent, heq⟩ := List.cons.inj heq
              obtain ⟨hrest, hcount⟩ :=
                ih (n + 1) heq htail fun p hp => hpieces p (List.mem_cons_of_mem _ hp)
              simp only [Piece.extent, Extent.mk.injEq] at hextent
              rw [nodeLabels, hrest, pieceLabels, ← hextent.1,
                if_neg Bool.false_ne_true, countStatements, hcount, List.filter_cons, ← hextent.1]
              exact ⟨rfl, rfl⟩

/-- In a `Clear` text the statements and labels have the numbers of the game. -/
theorem clear_numbers (u : Unicode) {text : String} {ast : AST} (h : parseMlog text = some ast)
    (hclear : Clear text.toList) :
    countStatements ast = ((pieces text.toList).filter fun p => !p.isLabel).length ∧
      ∀ ys, iterLabels u ast = .ok ys → ys.map (fun e => (e.1.toList, e.2)) =
        pieceLabels 0 (pieces text.toList) := by
  have hextents := (matchesGame_iff h).mpr hclear
  obtain ⟨ls, hls, rfl⟩ := parseMlog_iff.mp h
  have hlabels (name : Token) (hname : .label name ∈ (build 0 ls).2) : LabelAt text.toList name :=
    build_labelAt [] hls.flatMap_text hname
  have hpieces : ∀ p ∈ pieces text.toList, PieceAt text.toList p := by
    intro p hp
    obtain ⟨i, hi, hip⟩ := List.mem_filterMap.mp hp
    cases i with
    | comment => cases hip
    | piece q =>
        cases hip
        exact items_pieceAt [] rfl (fun _ _ h => by cases h) hi
  obtain ⟨hnames, hcount⟩ := nodeLabels_eq 0 hextents hlabels hpieces
  refine ⟨hcount, fun ys hys => ?_⟩
  rw [iterLabels_labels hys]
  exact hnames

/-- For a text that `parse_mlog` accepts, its statements and labels are those of the game, at the
same places, exactly if the text is `Clear`. Then the labels that `iter_labels` yields have the
numbers of the game. -/
theorem parse_matchesGame (u : Unicode) {text : String} {ast : AST} (h : parseMlog text = some ast) :
    (ast.filterMap ASTNode.extent? = (pieces text.toList).map Piece.extent ↔ Clear text.toList) ∧
      (Clear text.toList →
        countStatements ast = ((pieces text.toList).filter fun p => !p.isLabel).length ∧
          ∀ ys, iterLabels u ast = .ok ys → ys.map (fun e => (e.1.toList, e.2)) =
            pieceLabels 0 (pieces text.toList)) :=
  ⟨matchesGame_iff h, clear_numbers u h⟩

/-- Two statements on a line, and a comment. -/
def loopText : String := "a:\nset x 1; jump %a% always # b\n"

def loopAst : AST := (parseMlog loopText).getD []

theorem parse_matchesGame_loop :
    (loopAst.filterMap ASTNode.extent? = (pieces loopText.toList).map Piece.extent ↔
      Clear loopText.toList) ∧
      (Clear loopText.toList →
        countStatements loopAst = ((pieces loopText.toList).filter fun p => !p.isLabel).length ∧
          ∀ ys, iterLabels asciiUnicode loopAst = .ok ys →
            ys.map (fun e => (e.1.toList, e.2)) = pieceLabels 0 (pieces loopText.toList)) :=
  parse_matchesGame asciiUnicode (by decide)

/-! ## One statement for each of the game -/

/-- Each statement and each label is one of the game, at its place and with its number. -/
structure SplitsAsGame (u : Unicode) (text : String) (ast : AST) : Prop where
  nodes : ast.filterMap ASTNode.extent? = (pieces text.toList).map Piece.extent
  count : countStatements ast = ((pieces text.toList).filter fun p => !p.isLabel).length
  labels : ∀ ys, iterLabels u ast = .ok ys →
    ys.map (fun e => (e.1.toList, e.2)) = pieceLabels 0 (pieces text.toList)

theorem splitsAsGame_iff (u : Unicode) {text : String} {ast : AST} (h : parseMlog text = some ast) :
    SplitsAsGame u text ast ↔ Clear text.toList := by
  constructor
  · exact fun hsplits => (matchesGame_iff h).mp hsplits.nodes
  · intro hclear
    obtain ⟨hcount, hlabels⟩ := clear_numbers u h hclear
    exact ⟨(matchesGame_iff h).mpr hclear, hcount, hlabels⟩

theorem splitsAsGame_iff_loop :
    SplitsAsGame asciiUnicode loopText loopAst ↔ Clear loopText.toList :=
  splitsAsGame_iff asciiUnicode (by decide)

/-- The string of the first statement runs to the last double quote of the line. -/
theorem twoStrings_not_splitsAsGame :
    ∃ ast, parseMlog "print \"a\"; print \"b\"\n" = some ast ∧
      countStatements ast = 1 ∧
      ((pieces "print \"a\"; print \"b\"\n".toList).filter fun p => !p.isLabel).length = 2 ∧
      ¬SplitsAsGame asciiUnicode "print \"a\"; print \"b\"\n" ast := by
  refine ⟨(parseMlog "print \"a\"; print \"b\"\n").getD [], by decide, by decide, by decide,
    fun h => ?_⟩
  exact absurd h.count (by decide)

end Mlogv32.Parser
