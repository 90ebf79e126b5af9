import Mlogv32.Parser.Lemmas.Check

/-!
# A checked program can be cut

A new worker has the restored variables of the last one. If the check gives no warning, the run goes
on as before, as long as it reads no bracket variable that it has not assigned.
-/

namespace Mlogv32.Parser

/-! ## Programs and cuts -/

/-- The text has one fetch block. -/
structure FetchBlock (ast pre fetch post : AST) : Prop where
  split : ∃ startName startArgs endName endArgs, startName.value = "start_fetch" ∧
    endName.value = "end_fetch" ∧
    ast = pre ++ .directive startName startArgs :: (fetch ++ .directive endName endArgs :: post)
  pre : ∀ n ∈ pre, n.isFetchDirective = false
  fetch : ∀ n ∈ fetch, n.isFetchDirective = false
  post : ∀ n ∈ post, n.isFetchDirective = false

/-- The fetch block names the variables of `prev_proc` with string literals. -/
def FetchLiterals (fetch : AST) : Prop :=
  ∀ st ∈ statements fetch, ∀ var name, st.name.value = "read" → st.args.map Token.value =
    [var, "prev_proc", name] →
    ∃ t, name = "\"" ++ t ++ "\""

variable {Val Env : Type}

/-- A new worker goes on at the same statement. It has the restored variables, and those that are
the same for all workers because no statement after `end_fetch` assigns them. -/
structure Cut (fetch post : AST) (m m' : Machine Val Env) : Prop where
  env : m'.env = m.env
  counter : m'.store "@counter" = m.store "@counter"
  restored : ∀ st ∈ statements fetch, ∀ x, st.restores = some x → m'.store x = m.store x
  unassigned : ∀ x, (∀ st ∈ statements post, st.result ≠ some x) → m'.store x = m.store x

/-- The run from `m` reads a bracket variable only after it has assigned it. -/
def AssignsFirst (g : Game Val Env) (ast : AST) (m : Machine Val Env) : Prop :=
  ∀ n s, g.next (statements ast) (g.run (statements ast) n m) = some s →
  ∀ x ∈ s.reads, x ∈ bracketVars ast →
    ∃ k < n, g.Assigns (statements ast) (g.run (statements ast) k m) x

/-- The runs execute the same statements with the same effects. -/
def SameRun (g : Game Val Env) (program : List Statement) (m m' : Machine Val Env) : Prop :=
  ∀ n, (g.run program n m').env = (g.run program n m).env ∧
    (g.run program n m').store "@counter" = (g.run program n m).store "@counter" ∧
    g.next program (g.run program n m') = g.next program (g.run program n m)

/-! ## Checked programs -/

theorem inner_literal (t : String) : inner ("\"" ++ t ++ "\"") = t := by
  simp [inner]

theorem restores_of_read {st : Statement} {var t : String} (hname : st.name.value = "read")
    (hargs : st.args.map Token.value = [var, "prev_proc", "\"" ++ t ++ "\""]) (hvar : var = t) :
    st.restores = some var := by
  simp [Statement.restores, hname, hargs, hvar]

theorem restores_of_fetches {fetch : AST} (h : FetchLiterals fetch) {st : Statement}
    (hst : st ∈ statements fetch) {x : String} (hx : st.fetches = some x) :
    st.restores = some x := by
  have hliteral := h st hst
  unfold Statement.fetches at hx
  split at hx
  · rename_i var target name hname hargs
    split at hx
    · rename_i hread
      obtain rfl := Option.some.inj hx
      rw [hread.1] at hargs
      obtain ⟨t, rfl⟩ := hliteral var name hname hargs
      have hvar := hread.2
      rw [inner_literal] at hvar
      exact restores_of_read hname hargs hvar
    · cases hx
  · cases hx

theorem bracketVars_mono {ast ast' : AST} (h : ast ⊆ ast') {x : String} (hx : x ∈ bracketVars ast) :
    x ∈ bracketVars ast' := by
  obtain ⟨n, hn, hx⟩ := List.mem_flatMap.mp hx
  exact List.mem_flatMap.mpr ⟨n, h hn, hx⟩

theorem mem_fetched {ast : AST} {x : String} (hx : x ∈ ast.flatMap ASTNode.fetched) :
    ∃ st ∈ statements ast, st.fetches = some x := by
  induction ast with
  | nil => cases hx
  | cons n ast ih =>
      rw [List.flatMap_cons, List.mem_append] at hx
      cases n with
      | label name => exact ih (hx.resolve_left List.not_mem_nil)
      | directive name args => exact ih (hx.resolve_left List.not_mem_nil)
      | statement st =>
          rcases hx with hx | hx
          · exact ⟨st, List.mem_cons_self, Option.mem_toList.mp hx⟩
          · obtain ⟨st', hst', hx⟩ := ih hx
            exact ⟨st', List.mem_cons_of_mem _ hst', hx⟩

theorem checked_result {ast pre fetch post : AST} {count : Nat} (hblock : FetchBlock ast pre fetch post)
    (hargs : ∀ st ∈ statements ast, st.hasArgs) (hliterals : FetchLiterals fetch)
    (hcheck : checkUnsavedVariables ast = some ([], count)) :
    ∀ st ∈ statements post, ∀ x, st.result = some x →
      x = "@counter" ∨ (∃ st' ∈ statements fetch, st'.restores = some x) ∨ x ∈ bracketVars ast := by
  obtain ⟨startName, startArgs, endName, endArgs, hstart, hend, rfl⟩ := hblock.split
  obtain ⟨s, hs, hresult⟩ := Option.map_eq_some_iff.mp hcheck
  have hquiet : s.warnings = [] := congrArg Prod.fst hresult
  -- the state after each part of the text
  rw [List.foldlM_append] at hs
  obtain ⟨s₁, hpre, hs⟩ := Option.bind_eq_some_iff.mp hs
  rw [List.foldlM_cons] at hs
  obtain ⟨s₂, hs₂, hs⟩ := Option.bind_eq_some_iff.mp hs
  rw [List.foldlM_append] at hs
  obtain ⟨s₃, hfetch, hs⟩ := Option.bind_eq_some_iff.mp hs
  rw [List.foldlM_cons] at hs
  obtain ⟨s₄, hs₄, hpost⟩ := Option.bind_eq_some_iff.mp hs
  obtain rfl : { s₁ with state := .fetch } = s₂ := by
    simpa [CheckState.node, CheckState.directive, hstart] using hs₂
  obtain rfl : { s₃ with state := .check } = s₄ := by
    simpa [CheckState.node, CheckState.directive, hend] using hs₄
  have hpreSteps := CheckState.nodes_steps hpre hblock.pre
  have hfetchSteps := CheckState.nodes_steps hfetch hblock.fetch
  have hpostSteps := CheckState.nodes_steps hpost hblock.post
  have hquiet₃ := hpostSteps.quiet hquiet
  have hquiet₁ := hfetchSteps.quiet hquiet₃
  have hwarned₃ : s₃.warnedVariables = [] :=
    (hfetchSteps.warned hquiet₃).trans (hpreSteps.warned hquiet₁)
  intro st hst x hx
  have hpostArgs (st : Statement) (hst : st ∈ statements post) : st.hasArgs :=
    hargs st (by simp [statements, hst])
  rcases CheckState.nodes_saved hpost hblock.post rfl hwarned₃ hquiet hpostArgs st hst x hx with hx | hx
  · rcases hfetchSteps.saved hquiet₃ x hx with hx | hx | ⟨-, hx⟩
    · rcases hpreSteps.saved hquiet₁ x hx with hx | hx | ⟨hstate, -⟩
      · exact Or.inl (List.mem_singleton.mp hx)
      · exact Or.inr (Or.inr (bracketVars_mono (by simp) hx))
      · cases hstate
    · exact Or.inr (Or.inr (bracketVars_mono (fun n hn => by simp [hn]) hx))
    · obtain ⟨st', hst', hx⟩ := mem_fetched hx
      exact Or.inr (Or.inl ⟨st', hst', restores_of_fetches hliterals hst' hx⟩)
  · exact Or.inr (Or.inr (bracketVars_mono (fun n hn => by simp [hn]) hx))

/-! ## Runs -/

variable (g : Game Val Env) {ast pre fetch post : AST} {m m' : Machine Val Env}

theorem Game.run_succ (program : List Statement) (n : Nat) (m : Machine Val Env) :
    g.run program (n + 1) m = g.step program (g.run program n m) := Function.iterate_succ_apply' ..

/-- What the two runs agree on after `n` statements. -/
structure Agree (ast : AST) (m m' : Machine Val Env) (n : Nat) : Prop where
  env : (g.run (statements ast) n m').env = (g.run (statements ast) n m).env
  counter : (g.run (statements ast) n m').store "@counter" =
    (g.run (statements ast) n m).store "@counter"
  store : ∀ x, (x ∈ bracketVars ast →
    ∃ k < n, g.Assigns (statements ast) (g.run (statements ast) k m) x) →
    (g.run (statements ast) n m').store x = (g.run (statements ast) n m).store x

theorem Effect.apply_env (e : Effect Val Env) (s : Statement) (σ : Store Val) :
    (e.apply s σ).env = e.env := by
  unfold Effect.apply
  split <;> rfl

theorem Effect.apply_of_ne {e : Effect Val Env} {s : Statement} {σ : Store Val} {x : String}
    (hx : s.result ≠ some x) :
    (e.apply s σ).store x = Function.update σ "@counter" e.counter x := by
  unfold Effect.apply
  dsimp only
  split
  · rename_i y v hresult _
    rw [hresult] at hx
    exact Function.update_of_ne (fun heq => hx (congrArg some heq.symm)) ..
  · rfl

/-- A statement leaves the same value in a variable that was the same, and in those that it assigns. -/
theorem Effect.apply_store (e : Effect Val Env) (s : Statement) {σ σ' : Store Val} {x : String}
    (h : σ' x = σ x ∨ x = "@counter" ∨ s.result = some x ∧ e.result.isSome) :
    (e.apply s σ').store x = (e.apply s σ).store x := by
  unfold Effect.apply
  split
  · rename_i y v hresult _
    dsimp only
    by_cases hy : x = y
    · subst hy
      rw [Function.update_self, Function.update_self]
    · rw [Function.update_of_ne hy, Function.update_of_ne hy,
        Function.update_apply, Function.update_apply]
      rcases h with h | rfl | ⟨h, -⟩
      · rw [h]
      · rfl
      · rw [hresult] at h
        exact absurd (Option.some.inj h).symm hy
  · rename_i hnone
    dsimp only
    rw [Function.update_apply, Function.update_apply]
    rcases h with h | rfl | ⟨h, hsome⟩
    · rw [h]
    · rfl
    · obtain ⟨v, hv⟩ := Option.isSome_iff_exists.mp hsome
      exact (hnone x v h hv).elim

variable {g}

theorem Agree.next {n : Nat} (h : Agree g ast m m' n) :
    g.next (statements ast) (g.run (statements ast) n m') =
      g.next (statements ast) (g.run (statements ast) n m) := by
  rw [Game.next, Game.next, h.counter]

/-- One statement reads the same values in both runs. -/
theorem Agree.succ {n : Nat} (hfirst : AssignsFirst g ast m) (h : Agree g ast m m' n) :
    Agree g ast m m' (n + 1) := by
  have hnext := h.next
  cases hs : g.next (statements ast) (g.run (statements ast) n m) with
  | none =>
      rw [hs] at hnext
      have hstay : g.run (statements ast) (n + 1) m = g.run (statements ast) n m := by
        rw [Game.run_succ, Game.step, hs]
      have hstay' : g.run (statements ast) (n + 1) m' = g.run (statements ast) n m' := by
        rw [Game.run_succ, Game.step, hnext]
      refine ⟨by rw [hstay, hstay', h.env], by rw [hstay, hstay', h.counter], fun x hx => ?_⟩
      rw [hstay, hstay']
      refine h.store x fun hbracket => ?_
      obtain ⟨k, hk, hassigns⟩ := hx hbracket
      rcases Nat.lt_succ_iff_lt_or_eq.mp hk with hk | rfl
      · exact ⟨k, hk, hassigns⟩
      · obtain ⟨s, hs', -⟩ := hassigns
        rw [hs] at hs'
        cases hs'
  | some s =>
      rw [hs] at hnext
      have hreads (x : String) (hx : x ∈ s.reads) :
          (g.run (statements ast) n m').store x = (g.run (statements ast) n m).store x :=
        h.store x (hfirst n s hs x hx)
      have heffect : g.exec s (g.run (statements ast) n m').store (g.run (statements ast) n m').env =
          g.exec s (g.run (statements ast) n m).store (g.run (statements ast) n m).env := by
        rw [h.env]
        exact g.exec_congr s _ _ _ h.counter hreads
      have hrun : g.run (statements ast) (n + 1) m = (g.exec s (g.run (statements ast) n m).store
          (g.run (statements ast) n m).env).apply s (g.run (statements ast) n m).store := by
        rw [Game.run_succ, Game.step, hs]
      have hrun' : g.run (statements ast) (n + 1) m' = (g.exec s (g.run (statements ast) n m).store
          (g.run (statements ast) n m).env).apply s (g.run (statements ast) n m').store := by
        rw [Game.run_succ, Game.step, hnext]
        dsimp only
        rw [heffect]
      refine ⟨?_, ?_, fun x hx => ?_⟩
      · rw [hrun, hrun', Effect.apply_env, Effect.apply_env]
      · rw [hrun, hrun']
        exact Effect.apply_store _ s (Or.inr (Or.inl rfl))
      · rw [hrun, hrun']
        refine Effect.apply_store _ s ?_
        by_cases hassigned : s.result = some x ∧ (g.exec s (g.run (statements ast) n m).store
            (g.run (statements ast) n m).env).result.isSome
        · exact Or.inr (Or.inr hassigned)
        · -- the variable keeps its value
          refine Or.inl (h.store x fun hbracket => ?_)
          obtain ⟨k, hk, hassigns⟩ := hx hbracket
          rcases Nat.lt_succ_iff_lt_or_eq.mp hk with hk | rfl
          · exact ⟨k, hk, hassigns⟩
          · obtain ⟨s', hs', hassigns⟩ := hassigns
            rw [hs] at hs'
            obtain rfl := Option.some.inj hs'
            exact absurd hassigns hassigned

/-- A program that the check accepts goes on unchanged after a cut. -/
theorem checked_cut (g : Game Val Env) {ast pre fetch post : AST} {count : Nat}
    {m m' : Machine Val Env} (hblock : FetchBlock ast pre fetch post)
    (hargs : ∀ st ∈ statements ast, st.hasArgs) (hliterals : FetchLiterals fetch)
    (hcheck : checkUnsavedVariables ast = some ([], count)) (hcut : Cut fetch post m m')
    (hfirst : AssignsFirst g ast m) : SameRun g (statements ast) m m' := by
  have hresult := checked_result hblock hargs hliterals hcheck
  have hagree (n : Nat) : Agree g ast m m' n := by
    induction n with
    | zero =>
        refine ⟨hcut.env, hcut.counter, fun x hx => ?_⟩
        by_cases hassigned : ∃ st ∈ statements post, st.result = some x
        · obtain ⟨st, hst, hst'⟩ := hassigned
          rcases hresult st hst x hst' with rfl | ⟨st', hst', hx'⟩ | hbracket
          · exact hcut.counter
          · exact hcut.restored st' hst' x hx'
          · obtain ⟨k, hk, -⟩ := hx hbracket
            exact absurd hk (Nat.not_lt_zero k)
        · exact hcut.unassigned x fun st hst hst' => hassigned ⟨st, hst, hst'⟩
    | succ n ih => exact ih.succ hfirst
  exact fun n => ⟨(hagree n).env, (hagree n).counter, (hagree n).next⟩

/-! ## Programs -/

/-- A token without a position. -/
def word (value : String) : Token := { type := .TOKEN, value := value, startPos := none, endPos := none }

def stmt (name : String) (args : List String) : ASTNode :=
  .statement { name := word name, args := args.map word }

def dir (name : String) (args : List String) : ASTNode := .directive (word name) (args.map word)

/-- The values that some statements compute. The numbers are values, and `write` appends to a list. -/
def compute (name : String) (values : List Int) (counter : Int) (env : List Int) :
    Effect Int (List Int) :=
  match name, values with
  | "set", [a] => { result := some a, counter := counter + 1, env := env }
  | "op", [_, a, b] => { result := some (a + b), counter := counter + 1, env := env }
  | "write", a :: _ => { result := none, counter := counter + 1, env := env ++ [a] }
  | "jump", target :: _ => { result := none, counter := target, env := env }
  | _, _ => { result := none, counter := counter + 1, env := env }

/-- A game for programs with `set`, `op add`, `write` and `jump ... always`. -/
def adder : Game Int (List Int) where
  index counter := counter.toNat
  exec s σ env := compute s.name.value (s.reads.map σ) (σ "@counter") env
  exec_congr s σ σ' env hcounter h := by rw [hcounter, List.map_congr_left h]

/-- A store in which the literals have their values. -/
def storeOf (counter x : Int) : Store Int := fun y =>
  if y = "@counter" then counter else if y = "1" then 1 else if y = "x" then x else 0

/-- `x` is restored, and the bracket variable `t` is read behind its assignment. -/
def countingFetch : AST := [stmt "read" ["x", "prev_proc", "\"x\""]]

def countingPost : AST :=
  [stmt "op" ["add", "x", "x", "1"], stmt "write" ["x", "cell1", "0"],
    dir "push_saved" ["t"], stmt "set" ["t", "x"],
    stmt "write" ["t", "cell1", "0"], dir "pop_saved" ["t"], stmt "jump" ["1", "always"]]

def counting : AST := [] ++ dir "start_fetch" [] :: (countingFetch ++ dir "end_fetch" [] :: countingPost)

theorem counting_cut :
    Cut countingFetch countingPost ({ store := storeOf 1 5, env := [] } : Machine Int (List Int))
    { store := Function.update (storeOf 1 5) "t" 9, env := [] } where
  env := rfl
  counter := rfl
  restored st hst x hx := by
    obtain rfl := List.mem_singleton.mp hst
    obtain rfl : "x" = x := Option.some.inj (hx.symm.trans (by decide)).symm
    rfl
  unassigned x hx := by
    have hne : x ≠ "t" := by
      rintro rfl
      exact hx { name := word "set", args := ["t", "x"].map word } (by decide) (by decide)
    exact Function.update_of_ne hne ..

/-- The program is at statement `c`, and the literal has its value. -/
def CountingAt (c : Nat) (m : Machine Int (List Int)) : Prop := m.store "@counter" = c ∧ m.store "1" = 1

theorem CountingAt.next {c : Nat} {m : Machine Int (List Int)} (h : CountingAt c m) :
    adder.next (statements counting) m = (statements counting)[c]?.or (statements counting)[0]? := by
  rw [Game.next, h.1]
  rfl

/-- Only the jump at the end leaves the order of the statements, and its target is the literal. -/
theorem counting_exec {c : Nat} (hc : c < 5) (σ : Store Int) (env : List Int) :
    ∀ s ∈ (statements counting)[c + 1]?,
      (adder.exec s σ env).counter = (if c = 4 then σ "1" else σ "@counter" + 1) ∧
        s.result ≠ some "@counter" ∧ s.result ≠ some "1" := by
  interval_cases c <;> rintro s ⟨⟩ <;> exact ⟨rfl, by decide, by decide⟩

theorem CountingAt.step {c : Nat} (hc : c < 5) {m : Machine Int (List Int)} (h : CountingAt (c + 1) m) :
    CountingAt ((c + 1) % 5 + 1) (adder.step (statements counting) m) := by
  have hsome : ∀ c < 5, ((statements counting)[c + 1]?).isSome := by decide
  obtain ⟨s, hs⟩ := Option.isSome_iff_exists.mp (hsome c hc)
  have hnext := h.next
  obtain ⟨hcounter, hone⟩ := h
  obtain ⟨hexec, hcounter', hone'⟩ := counting_exec hc m.store m.env s hs
  rw [hs, Option.some_or] at hnext
  rw [Game.step, hnext]
  refine ⟨(Effect.apply_of_ne hcounter').trans ((Function.update_self ..).trans (hexec.trans ?_)),
    (Effect.apply_of_ne hone').trans ((Function.update_of_ne (by decide) ..).trans hone)⟩
  split
  · subst c
    exact hone
  · rw [hcounter, Nat.mod_eq_of_lt (by omega)]
    norm_cast

theorem CountingAt.run {m : Machine Int (List Int)} (h : CountingAt 1 m) (n : Nat) :
    CountingAt (n % 5 + 1) (adder.run (statements counting) n m) := by
  induction n with
  | zero => exact h
  | succ n ih =>
      have hstep := CountingAt.step (Nat.mod_lt n (by decide)) ih
      rw [Game.run_succ]
      rwa [Nat.add_mod, Nat.mod_mod, ← Nat.add_mod] at hstep

/-- The only statement that reads `t` comes right behind the one that assigns it. -/
theorem counting_assignsFirst {m : Machine Int (List Int)} (h : CountingAt 1 m) :
    AssignsFirst adder counting m := by
  intro n s hs x hx hbracket
  have hvars : bracketVars counting = ["t"] := by decide
  have hreads : ∀ c < 5, c ≠ 3 → ∀ s ∈ (statements counting)[c + 1]?.or (statements counting)[0]?,
      "t" ∉ s.reads := by
    decide
  rw [hvars, List.mem_singleton] at hbracket
  subst hbracket
  rw [(h.run n).next] at hs
  have hread : n % 5 = 3 := by
    by_contra hne
    exact hreads (n % 5) (Nat.mod_lt n (by decide)) hne s hs hx
  have hset := (h.run (n - 1)).next
  rw [show (n - 1) % 5 + 1 = 3 by omega] at hset
  exact ⟨n - 1, by omega, _, hset, by decide, rfl⟩

theorem counting_block : FetchBlock counting [] countingFetch countingPost :=
  ⟨⟨_, _, _, _, rfl, rfl, rfl⟩, by decide, by decide, by decide⟩

theorem counting_literals : FetchLiterals countingFetch := by
  intro st hst var name hname hargs
  obtain rfl := List.mem_singleton.mp hst
  obtain ⟨-, -, rfl⟩ : (word "x").value = var ∧ (word "prev_proc").value = "prev_proc" ∧
      (word "\"x\"").value = name := by
    simpa using hargs
  exact ⟨"x", rfl⟩

theorem checked_cut_counting :
    SameRun adder (statements counting) { store := storeOf 1 5, env := [] }
      { store := Function.update (storeOf 1 5) "t" 9, env := [] } :=
  @checked_cut Int (List Int) adder counting
  [] countingFetch countingPost 1 _ _ counting_block (by decide)
    counting_literals (by decide) counting_cut (counting_assignsFirst ⟨rfl, rfl⟩)

/-! ## Programs that cannot be cut -/

/-- The statements, each with the variables of the brackets around it. -/
def withBrackets (inside : List String) : AST → List (Statement × List String)
  | [] => []
  | .label _ :: ast => withBrackets inside ast
  | .statement s :: ast => (s, inside) :: withBrackets inside ast
  | .directive name args :: ast =>
      if name.value = "push_saved" then withBrackets (args.map Token.value ++ inside) ast
      else if name.value = "pop_saved" then withBrackets (inside.filter (· ∉ args.map Token.value)) ast
      else withBrackets inside ast

/-- The variables of a bracket are not restored, and used only inside. -/
structure BracketsOk (ast fetch : AST) : Prop where
  disjoint : ∀ x ∈ bracketVars ast, ∀ st ∈ statements fetch, st.restores ≠ some x
  inside : ∀ p ∈ withBrackets [] ast, ∀ x ∈ p.1.args.map Token.value, x ∈ bracketVars ast → x ∈ p.2

/-- The check accepts the program. A cut at the given statement, which is in no bracket, changes the
run. -/
def CutChanges (ast pre fetch post : AST) (g : Game Val Env) (m m' : Machine Val Env) (at_ : Nat) :
    Prop :=
  FetchBlock ast pre fetch post ∧ (∀ st ∈ statements ast, st.hasArgs) ∧ BracketsOk ast fetch ∧
    (∃ count, checkUnsavedVariables ast = some ([], count)) ∧ g.index (m.store "@counter") = at_ ∧
    ((withBrackets [] ast)[at_]?.map Prod.snd = some []) ∧ Cut fetch post m m' ∧
    ¬SameRun g (statements ast) m m'

/-- The bracket variable keeps a count between two runs of the bracket. -/
def keepingPost : AST :=
  [dir "push_saved" ["x"], stmt "op" ["add", "x", "x", "1"], stmt "write" ["x", "cell1", "0"],
    dir "pop_saved" ["x"], stmt "jump" ["0", "always"]]

def keeping : AST := [] ++ dir "start_fetch" [] :: ([] ++ dir "end_fetch" [] :: keepingPost)

/-- The fetch block reads with a number in place of a string. -/
def numberFetch : AST := [stmt "read" ["x", "prev_proc", "0x0"]]

def numberPost : AST := [stmt "op" ["add", "x", "x", "1"], stmt "write" ["x", "cell1", "0"]]

def number : AST := [] ++ dir "start_fetch" [] :: (numberFetch ++ dir "end_fetch" [] :: numberPost)

theorem storeOf_eq {counter x x' : Int} {y : String} (h : y ≠ "x") :
    storeOf counter x' y = storeOf counter x y := by
  unfold storeOf
  rw [if_neg h, if_neg h]

theorem checked_cut_changes :
    CutChanges keeping [] [] keepingPost adder { store := storeOf 2 1, env := [] }
      { store := storeOf 2 7, env := [] } 2 ∧
    CutChanges number [] numberFetch numberPost adder { store := storeOf 1 1, env := [] }
      { store := storeOf 1 7, env := [] } 1 := by
  constructor
  · refine ⟨⟨⟨_, _, _, _, rfl, rfl, rfl⟩, by decide, by decide, by decide⟩, by decide,
      ⟨by decide, by decide⟩,
      ⟨0, by decide⟩, by
        decide, by
          decide, ⟨rfl, rfl, fun st hst => absurd hst List.not_mem_nil, fun x hx => ?_⟩,
            fun h => ?_⟩
    · have hne : x ≠ "x" := by
        rintro rfl
        exact hx { name := word "op", args := ["add", "x", "x", "1"].map word } (by decide) (by decide)
      exact storeOf_eq hne
    · exact absurd (h 3).1 (by decide)
  · refine ⟨⟨⟨_, _, _, _, rfl, rfl, rfl⟩, by decide, by decide, by decide⟩, by decide,
      ⟨by decide, by decide⟩,
      ⟨1, by decide⟩, by
        decide, by decide, ⟨rfl, rfl, fun st hst x hx => ?_, fun x hx => ?_⟩, fun h => ?_⟩
    · have hnone : ∀ st ∈ statements numberFetch, st.restores = none := by decide
      rw [hnone st hst] at hx
      cases hx
    · have hne : x ≠ "x" := by
        rintro rfl
        exact hx { name := word "op", args := ["add", "x", "x", "1"].map word } (by decide) (by decide)
      exact storeOf_eq hne
    · exact absurd (h 2).1 (by decide)

end Mlogv32.Parser
