import Mlogv32.Parser.Check
import Mlogv32.Parser.Run

/-!
# What a check without warnings has seen

Every variable that is assigned after `end_fetch` is restored or belongs to a bracket.
-/

namespace Mlogv32.Parser

/-! ## Variables -/

/-- The variables of a `push_saved`. -/
def ASTNode.pushed : ASTNode → List String
  | .directive name args => if name.value = "push_saved" then args.map Token.value else []
  | _ => []

/-- The variables of the brackets. -/
def bracketVars (ast : AST) : List String := ast.flatMap ASTNode.pushed

/-- The variable that the check takes as restored by a statement of the fetch block. -/
def Statement.fetches (s : Statement) : Option String :=
  match s.name.value, s.args.map Token.value with
  | "read", [var, target, name] => if target = "prev_proc" ∧ var = inner name then some var else none
  | _, _ => none

def ASTNode.fetched : ASTNode → List String
  | .statement s => s.fetches.toList
  | _ => []

def ASTNode.isFetchDirective : ASTNode → Bool
  | .directive name _ => name.value = "start_fetch" || name.value = "end_fetch"
  | _ => false

/-! ## One node -/

namespace CheckState

theorem not_quiet_warn {s : CheckState} {w : Warning} : (s.warn w).warnings ≠ [] := by simp [warn]

theorem save_warnings (s : CheckState) (var : String) : (s.save var).warnings = s.warnings := by
  rw [save]
  split <;> rfl

theorem save_warnedVariables (s : CheckState) (var : String) :
    (s.save var).warnedVariables = s.warnedVariables := by
  rw [save]
  split <;> rfl

theorem save_state (s : CheckState) (var : String) : (s.save var).state = s.state := by
  rw [save]
  split <;> rfl

theorem mem_save {s : CheckState} {var x : String} :
    x ∈ (s.save var).savedVariables ↔ x = var ∨ x ∈ s.savedVariables := by
  rw [save]
  split
  · rename_i h
    constructor
    · exact Or.inr
    · rintro (rfl | hx)
      · exact h
      · exact hx
  · exact List.mem_cons

/-- What a step without a warning does. -/
structure Steps (s s' : CheckState) (pushed fetched : List String) : Prop where
  state : s'.state = s.state
  quiet : s'.warnings = [] → s.warnings = []
  warned : s'.warnings = [] → s'.warnedVariables = s.warnedVariables
  saved : s'.warnings = [] → ∀ x ∈ s'.savedVariables, x ∈ s.savedVariables ∨ x ∈ pushed ∨
    s.state = .fetch ∧ x ∈ fetched

theorem Steps.refl (s : CheckState) (pushed fetched : List String) : Steps s s pushed fetched :=
  ⟨rfl, id, fun _ => rfl, fun _ _ hx => Or.inl hx⟩

theorem assign_steps (s : CheckState) (var : String) (fetched : List String) :
    Steps s (s.assign var) [] fetched := by
  rw [assign]
  split
  · exact ⟨rfl, fun h => absurd h not_quiet_warn, fun h => absurd h not_quiet_warn,
      fun h => absurd h not_quiet_warn⟩
  · exact .refl s [] fetched

/-- A check without a warning finds the variable. -/
theorem assign_saved {s : CheckState} {var : String} (hstate : s.state = .check)
    (hwarned : s.warnedVariables = []) (h : (s.assign var).warnings = []) :
    var ∈ s.savedVariables := by
  rw [assign] at h
  split at h
  · exact absurd h not_quiet_warn
  · rename_i hnot
    simpa [hstate, hwarned] using hnot

theorem restore_steps {s : CheckState} {var name : String} (hstate : s.state = .fetch) :
    Steps s (s.restore var name) [] (if var = inner name then [var] else []) := by
  unfold restore
  split
  · have hwarn : ((s.warn (.invalidRestoration var (inner name))).save var).warnings ≠ [] := by
      rw [save_warnings]
      exact not_quiet_warn
    exact ⟨save_state .., fun h => absurd h hwarn, fun h => absurd h hwarn, fun h => absurd h hwarn⟩
  · rename_i hname
    rw [if_pos (not_not.mp hname)]
    split
    · have hwarn : ((s.warn (.duplicateRestoration var)).save var).warnings ≠ [] := by
        rw [save_warnings]
        exact not_quiet_warn
      exact ⟨save_state .., fun h => absurd h hwarn, fun h => absurd h hwarn, fun h => absurd h hwarn⟩
    · refine ⟨save_state .., fun h => (save_warnings s var) ▸ h, fun _ =>
        save_warnedVariables .., fun _ x hx => ?_⟩
      rcases mem_save.mp hx with rfl | hx
      · exact Or.inr (Or.inr ⟨hstate, List.mem_singleton_self x⟩)
      · exact Or.inl hx

theorem statement_steps (s : CheckState) (st : Statement) :
    Steps s (s.statement st.name.value (st.args.map Token.value)) [] st.fetches.toList := by
  unfold Statement.fetches
  generalize st.name.value = name
  generalize st.args.map Token.value = args
  unfold statement
  split
  · rename_i var target value
    by_cases hfetch : s.state = .fetch ∧ target = "prev_proc"
    · rw [if_pos hfetch]
      have h := @restore_steps s var value hfetch.1
      by_cases hvalue : var = inner value
      · simpa [hfetch.2, ← hvalue] using h
      · simpa [hfetch.2, hvalue] using h
    · rw [if_neg hfetch]
      exact assign_steps ..
  all_goals first | exact assign_steps .. | exact .refl ..

theorem statement_saved {s : CheckState} {st : Statement} (hstate : s.state = .check)
    (hwarned : s.warnedVariables = [])
    (h : (s.statement st.name.value (st.args.map Token.value)).warnings = []) (hargs : st.hasArgs)
    {x : String} (hx : st.result = some x) : x ∈ s.savedVariables := by
  simp only [Statement.result, ← List.getElem?_map] at hx
  have hlength : st.args.length = (st.args.map Token.value).length := (List.length_map ..).symm
  rw [Statement.hasArgs, hlength] at hargs
  generalize st.name.value = name at h hargs hx
  generalize st.args.map Token.value = args at h hargs hx
  unfold resultIndex at hx
  split at hx
  · obtain ⟨var, target, value, rfl⟩ := List.length_eq_three.mp (of_decide_eq_true hargs)
    obtain rfl : var = x := by simpa using hx
    refine assign_saved hstate hwarned ?_
    simpa [statement, hstate] using h
  all_goals first
    | cases hx
    | (cases args with
        | nil => cases hargs
        | cons var args =>
            obtain rfl : var = x := by simpa using hx
            exact assign_saved hstate hwarned h)
    | (match args, hargs with
        | _ :: var :: _, _ =>
            obtain rfl : var = x := by simpa using hx
            exact assign_saved hstate hwarned h)

theorem Steps.trans {s t u : CheckState} {p p' f f' : List String} (h : Steps s t p f)
    (h' : Steps t u p' f') :
    Steps s u (p ++ p') (f ++ f') where
  state := h'.state.trans h.state
  quiet hu := h.quiet (h'.quiet hu)
  warned hu := (h'.warned hu).trans (h.warned (h'.quiet hu))
  saved hu x hx := by
    rcases h'.saved hu x hx with hx | hx | ⟨hstate, hx⟩
    · rcases h.saved (h'.quiet hu) x hx with hx | hx | ⟨hstate, hx⟩
      · exact Or.inl hx
      · exact Or.inr (Or.inl (List.mem_append_left _ hx))
      · exact Or.inr (Or.inr ⟨hstate, List.mem_append_left _ hx⟩)
    · exact Or.inr (Or.inl (List.mem_append_right _ hx))
    · exact Or.inr (Or.inr ⟨h.state ▸ hstate, List.mem_append_right _ hx⟩)

theorem push_steps (s : CheckState) (args fetched : List String) :
    Steps s (args.foldl save s) args fetched := by
  induction args generalizing s with
  | nil => exact .refl s [] fetched
  | cons var args ih =>
      obtain ⟨hstate, hquiet, hwarned, hsaved⟩ := ih (s.save var)
      rw [save_state] at hstate hsaved
      rw [save_warnings] at hquiet
      rw [save_warnedVariables] at hwarned
      refine ⟨hstate, hquiet, hwarned, fun h x hx => ?_⟩
      rcases hsaved h x hx with hx | hx | hx
      · rcases mem_save.mp hx with rfl | hx
        · exact Or.inr (Or.inl List.mem_cons_self)
        · exact Or.inl hx
      · exact Or.inr (Or.inl (List.mem_cons_of_mem _ hx))
      · exact Or.inr (Or.inr hx)

theorem pop_steps {s s' : CheckState} {args : List String} (h : args.foldlM unsave s = some s')
    (fetched : List String) :
    Steps s s' [] fetched := by
  induction args generalizing s with
  | nil =>
      obtain rfl : s = s' := by simpa using h
      exact .refl s [] fetched
  | cons var args ih =>
      rw [List.foldlM_cons] at h
      obtain ⟨t, ht, h⟩ := Option.bind_eq_some_iff.mp h
      rw [unsave] at ht
      split at ht
      · obtain rfl := Option.some.inj ht
        obtain ⟨hstate, hquiet, hwarned, hsaved⟩ := ih h
        refine ⟨hstate, hquiet, hwarned, fun hs x hx => ?_⟩
        rcases hsaved hs x hx with hx | hx | hx
        · exact Or.inl (List.mem_of_mem_erase hx)
        · exact Or.inr (Or.inl hx)
        · exact Or.inr (Or.inr hx)
      · cases ht

theorem node_steps {s s' : CheckState} {n : ASTNode} (h : s.node n = some s')
    (hn : n.isFetchDirective = false) :
    Steps s s' n.pushed n.fetched := by
  cases n with
  | label name =>
      obtain rfl := Option.some.inj h
      exact .refl s [] []
  | statement st =>
      obtain rfl := Option.some.inj h
      exact statement_steps s st
  | directive name args =>
      simp only [ASTNode.isFetchDirective, Bool.or_eq_false_iff, decide_eq_false_iff_not] at hn
      simp only [node, directive] at h
      have hpushed : (ASTNode.directive name args).pushed =
          if name.value = "push_saved" then args.map Token.value else [] := rfl
      have hfetched : (ASTNode.directive name args).fetched = [] := rfl
      rw [hpushed, hfetched]
      split at h
      · rename_i hname
        exact absurd hname hn.1
      · rename_i hname
        exact absurd hname hn.2
      · rename_i hname
        rw [if_pos hname]
        obtain rfl := Option.some.inj h
        exact push_steps s _ []
      · rename_i hname
        rw [if_neg (by rw [hname]; decide)]
        exact pop_steps h []
      · rename_i _ _ hname _
        rw [if_neg hname]
        obtain rfl := Option.some.inj h
        exact .refl s [] []

theorem nodes_steps {s s' : CheckState} {ast : AST} (h : ast.foldlM node s = some s')
    (hast : ∀ n ∈ ast, n.isFetchDirective = false) :
    Steps s s' (bracketVars ast) (ast.flatMap ASTNode.fetched) := by
  induction ast generalizing s with
  | nil =>
      obtain rfl : s = s' := by simpa using h
      exact .refl s [] []
  | cons n ast ih =>
      rw [List.foldlM_cons] at h
      obtain ⟨t, ht, h⟩ := Option.bind_eq_some_iff.mp h
      exact (node_steps ht (hast n List.mem_cons_self)).trans (ih h fun m hm =>
        hast m (List.mem_cons_of_mem _ hm))

/-- After `end_fetch`, a check without warnings finds the result of every statement. -/
theorem nodes_saved {s s' : CheckState} {ast : AST} (h : ast.foldlM node s = some s')
    (hast : ∀ n ∈ ast, n.isFetchDirective = false) (hstate : s.state = .check)
    (hwarned : s.warnedVariables = []) (hquiet : s'.warnings = [])
    (hargs : ∀ st ∈ statements ast, st.hasArgs) :
    ∀ st ∈ statements ast, ∀ x, st.result = some x → x ∈ s.savedVariables ∨ x ∈ bracketVars ast := by
  induction ast generalizing s with
  | nil => exact fun st hst => absurd hst List.not_mem_nil
  | cons n ast ih =>
      rw [List.foldlM_cons] at h
      obtain ⟨t, ht, h⟩ := Option.bind_eq_some_iff.mp h
      have hrest (m : ASTNode) (hm : m ∈ ast) := hast m (List.mem_cons_of_mem _ hm)
      have hnode := node_steps ht (hast n List.mem_cons_self)
      have hquiet' := (nodes_steps h hrest).quiet hquiet
      -- the statements behind this node
      have hbehind (hargs : ∀ st ∈ statements ast, st.hasArgs) (st : Statement)
          (hst : st ∈ statements ast) (x : String)
          (hx : st.result = some x) : x ∈ s.savedVariables ∨ x ∈ bracketVars (n :: ast) := by
        rw [bracketVars, List.flatMap_cons, List.mem_append]
        rcases ih h hrest (hnode.state.trans hstate) ((hnode.warned hquiet').trans hwarned)
          hargs st hst x hx with hx | hx
        · rcases hnode.saved hquiet' x hx with hx | hx | ⟨hfetch, -⟩
          · exact Or.inl hx
          · exact Or.inr (Or.inl hx)
          · rw [hstate] at hfetch
            cases hfetch
        · exact Or.inr (Or.inr hx)
      cases n with
      | label name => exact hbehind hargs
      | directive name args => exact hbehind hargs
      | statement first =>
          intro st hst x hx
          rw [statements] at hst hargs
          rcases List.mem_cons.mp hst with rfl | hst
          · obtain rfl := Option.some.inj ht
            exact Or.inl (statement_saved hstate hwarned hquiet' (hargs st List.mem_cons_self) hx)
          · exact hbehind (fun st hst => hargs st (List.mem_cons_of_mem _ hst)) st hst x hx

end CheckState

end Mlogv32.Parser
