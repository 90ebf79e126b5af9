import Mlogv32.Template.Lemmas.Locals
import Mathlib.Data.List.Nodup
import Mathlib.Data.List.ReduceOption

/-!
# Local variables never alias

After any calls of a template, live names have different local variables (`calls_noAlias`).
`declare_locals` declares all its names unless a list in its arguments makes it start over
(`declareLocals_iff`).
-/

namespace Mlogv32.Template
open Python Logic Locals

/-! ## Aliases -/

structure NoAlias (s : Locals) : Prop where
  live : ∀ n m i j, n ≠ m → s.localVariableCache n = some i → s.localVariableCache m = some j → i ≠ j
  not_freed : ∀ n i, s.localVariableCache n = some i → i ∉ s.freedLocalVariables
  freed : s.freedLocalVariables.Nodup ∧ ∀ i ∈ s.freedLocalVariables, i < s.localVariableIndex
  largest : ∀ i ∈ s.handedOut, i ≤ s.largestLocalVariable

theorem Locals.Inv.noAlias {s : Locals} (h : Inv s) : NoAlias s where
  live n m i _ hne hn hm heq := hne (h.live_inj n m i hn (heq ▸ hm))
  not_freed := h.live_not_freed
  freed := ⟨h.freed_nodup, h.freed_lt⟩
  largest := h.handedOut_le

/-- In every order of calls without an exception. -/
theorem calls_noAlias {cs : List Call} {s : Locals} (hrun : runCalls cs .extend = .ok () s) :
    NoAlias s :=
  (Reached.inv ⟨cs, hrun⟩).noAlias

/-- Three names, of which one is freed and its index used for a fourth name. -/
def reuseCalls : List Call :=
  [.declareLocals [.str "$$a", .str "$$b"] 3 true, .localVariable (some "c") false,
    .freeLocals [.list [.str "$$a"]],
    .localVariable none false, .freeLocals [.str "$c", .str "$$b"], .localVariable (some "d") false]

/-- The state after calls that raise no exception. -/
def afterCalls (cs : List Call) : Locals :=
  match runCalls cs .extend with
  | .ok _ s => s
  | .error _ s => s

theorem calls_noAlias_reuseCalls :
    NoAlias (afterCalls reuseCalls) ∧ (afterCalls reuseCalls).localVariableCache "d" = some 4 ∧
      (afterCalls reuseCalls).freedLocalVariables = [5] := by
  have hrun : runCalls reuseCalls .extend = .ok () (afterCalls reuseCalls) := by rfl
  exact ⟨calls_noAlias hrun, by decide, by decide⟩

/-! ## Names in order -/

mutual

/-- The beginnings of lists (`none`) and the names, as they follow each other in an argument. -/
def Names.marks : Names → List (Option String)
  | .str name => [some name]
  | .list names => none :: marksOf names

def marksOf : List Names → List (Option String)
  | [] => []
  | arg :: args => arg.marks ++ marksOf args

end

/-- The names in their order of appearance. -/
def listed (args : List Names) : List String := (marksOf args).reduceOption

def declareMark : Option String → Op Unit
  | some name => declareName name
  | none => resetLocals 1

def declareMarks : List (Option String) → Op Unit
  | [] => return
  | mark :: marks => do
      declareMark mark
      declareMarks marks

section Runs

variable {s s' s'' : Locals}

theorem declareMarks_append {l l' : List (Option String)} (h : declareMarks l s = .ok () s') :
    declareMarks (l ++ l') s = declareMarks l' s' := by
  induction l generalizing s with
  | nil =>
      cases h
      rfl
  | cons mark l ih =>
      rw [declareMarks] at h
      cases hmark : declareMark mark s with
      | ok _ t =>
          rw [bind_ok hmark] at h
          rw [List.cons_append, declareMarks, bind_ok hmark]
          exact ih h
      | error e t =>
          rw [bind_error hmark] at h
          cases h

theorem declareMarks_append_error {l l' : List (Option String)} {e : Exception}
    (h : declareMarks l s = .error e s') :
    declareMarks (l ++ l') s = .error e s' := by
  induction l generalizing s with
  | nil => cases h
  | cons mark l ih =>
      rw [declareMarks] at h
      cases hmark : declareMark mark s with
      | ok _ t =>
          rw [bind_ok hmark] at h
          rw [List.cons_append, declareMarks, bind_ok hmark]
          exact ih h
      | error e' t =>
          rw [bind_error hmark] at h
          rw [List.cons_append, declareMarks, bind_error hmark]
          exact h

end Runs

mutual

theorem declareArg_eq : ∀ arg : Names, declareArg arg = declareMarks arg.marks
  | .str name => by
      funext s
      rw [declareArg, Names.marks, declareMarks]
      cases h : declareName name s with
      | ok _ s' => exact (bind_ok (x := declareMark (some name)) h).symm
      | error e s' => exact (bind_error (x := declareMark (some name)) h).symm
  | .list names => by rw [declareArg, Names.marks, declareMarks, declareArgs_eq names]; rfl

/-- The recursion goes through the names and the beginnings of the lists in order. -/
theorem declareArgs_eq : ∀ args : List Names, declareArgs args = declareMarks (marksOf args)
  | [] => rfl
  | arg :: args => by
      funext s
      rw [declareArgs, marksOf, declareArg_eq arg, declareArgs_eq args]
      cases h : declareMarks arg.marks s with
      | ok _ s' => rw [bind_ok h, declareMarks_append h]
      | error e s' => rw [bind_error h, declareMarks_append_error h]

end

/-! ## Keys -/

theorem startswith_iff {s p : String} : startswith s p = true ↔ ∃ t, s.toList = p.toList ++ t := by
  rw [startswith, List.isPrefixOf_iff_prefix]
  constructor
  · rintro ⟨t, ht⟩
    exact ⟨t, ht.symm⟩
  · rintro ⟨t, ht⟩
    exact ⟨t, ht.symm⟩

/-- A declared name is its key after a `$`. -/
theorem toList_of_startswith {name : String} (h : startswith name "$$" = true) :
    name.toList = '$' :: (key name).toList := by
  obtain ⟨t, ht⟩ := startswith_iff.mp h
  have hdollar : startswith name "$" = true := startswith_iff.mpr ⟨'$' :: t, ht⟩
  rw [key, removeprefix, if_pos hdollar, String.toList_ofList, ht]
  rfl

theorem key_inj {n m : String} (hn : startswith n "$$" = true) (hm : startswith m "$$" = true)
    (h : key n = key m) :
    n = m := by
  apply String.toList_inj.mp
  rw [toList_of_startswith hn, toList_of_startswith hm, h]

theorem nodup_keys {names : List String} (hnames : ∀ n ∈ names, startswith n "$$" = true)
    (h : names.Nodup) :
    (names.map key).Nodup :=
  h.map_on fun n hn m hm => key_inj (hnames n hn) (hnames m hm)

/-! ## One name -/

/-- What the declaration of a name with this key does. -/
structure Declared (k : String) (s s' : Locals) : Prop where
  live : ∃ i, s'.localVariableCache k = some i
  kept : ∀ m j, s.localVariableCache m = some j → s'.localVariableCache m = some j
  fresh : s.freedLocalVariables = [] → s.localVariableCache k = none →
    s'.localVariableCache = Function.update s.localVariableCache k (some s.localVariableIndex) ∧
      s'.localVariableIndex = s.localVariableIndex + 1 ∧ s'.freedLocalVariables = []

/-- A key that was not live gets an index. -/
theorem Declared.of_bind {k : String} {s s' : Locals} {i : Int} (hk : s.localVariableCache k = none)
    (hcache : s'.localVariableCache = Function.update s.localVariableCache k (some i))
    (hfresh : s.freedLocalVariables = [] → i = s.localVariableIndex ∧
      s'.localVariableIndex = s.localVariableIndex + 1 ∧ s'.freedLocalVariables = []) :
      Declared k s s' where
  live := ⟨i, by rw [hcache, Function.update_self]⟩
  kept m j hm := by
    have hne : m ≠ k := by
      rintro rfl
      rw [hk] at hm
      cases hm
    rw [hcache, Function.update_of_ne hne, hm]
  fresh hfreed _ := by
    obtain ⟨rfl, hindex, hfreed'⟩ := hfresh hfreed
    exact ⟨hcache, hindex, hfreed'⟩

theorem localVariable_declared (k : String) (s : Locals) :
    wp (localVariable (.str k) true) (fun _ s' => Declared k s s') (fun _ _ => False) s := by
  simp only [localVariable, wp_bind, wp_get]
  split
  · rename_i i hk
    exact ⟨⟨i, hk⟩, fun _ _ hm => hm, fun _ hnone => absurd (hk.symm.trans hnone) (by simp)⟩
  · rename_i hk
    simp only [takeIndex, wp_bind, wp_get]
    split
    · rename_i i hlast
      refine Declared.of_bind hk rfl fun hfreed => ?_
      rw [hfreed] at hlast
      cases hlast
    · rename_i hlast
      exact Declared.of_bind hk rfl fun hfreed => ⟨rfl, rfl, hfreed⟩

theorem declareName_ok {name : String} (h : startswith name "$$" = true) (s : Locals) :
    ∃ s', declareName name s = .ok () s' ∧ Declared (key name) s s' := by
  have hwp : wp (declareName name) (fun _ s' => Declared (key name) s s') (fun _ _ => False) s := by
    simp only [declareName, h, wp_bind, wp_ite, wp_pure]
    exact ⟨fun hfalse => absurd hfalse (by simp), fun _ => localVariable_declared _ s⟩
  obtain ⟨_, s', hrun, hs'⟩ := exists_ok_of_wp hwp
  exact ⟨s', hrun, hs'⟩

/-! ## Several names -/

/-- From any state, all names are live in the end and nothing else changes its index. -/
theorem declareMarks_names {names : List String} (hnames : ∀ n ∈ names, startswith n "$$" = true)
    (s : Locals) :
    ∃ s', declareMarks (names.map some) s = .ok () s' ∧
      (∀ n ∈ names, ∃ j, s'.localVariableCache (key n) = some j) ∧
      ∀ m j, s.localVariableCache m = some j → s'.localVariableCache m = some j := by
  induction names generalizing s with
  | nil => exact ⟨s, rfl, fun _ h => absurd h List.not_mem_nil, fun _ _ h => h⟩
  | cons n names ih =>
      obtain ⟨t, hrun, hdecl⟩ := declareName_ok (hnames n List.mem_cons_self) s
      obtain ⟨s', hrun', hlive, hkept⟩ := ih (fun m hm => hnames m (List.mem_cons_of_mem _ hm)) t
      refine ⟨s', (bind_ok (x := declareMark (some n)) hrun).trans hrun',
        fun m hm => ?_, fun m j hm => ?_⟩
      · rcases List.mem_cons.mp hm with rfl | hm
        · obtain ⟨j, hj⟩ := hdecl.live
          exact ⟨j, hkept _ _ hj⟩
        · exact hlive m hm
      · exact hkept m j (hdecl.kept m j hm)

/-- The keys have indices that go up from `i`, and nothing else is live. -/
def Numbered (keys : List String) (i : Int) (s : Locals) : Prop :=
  ∀ m j, s.localVariableCache m = some j ↔ ∃ k : Nat, keys[k]? = some m ∧ j = i + k

/-- With no freed index, new names are numbered in order. -/
theorem declareMarks_fresh {names : List String} (hnames : ∀ n ∈ names, startswith n "$$" = true)
    (hnodup : (names.map key).Nodup) {s : Locals} (hfreed : s.freedLocalVariables = [])
    (hnew : ∀ n ∈ names, s.localVariableCache (key n) = none) :
    ∃ s', declareMarks (names.map some) s = .ok () s' ∧
      ∀ m j, s'.localVariableCache m = some j ↔ s.localVariableCache m = some j ∨
        ∃ k : Nat, (names.map key)[k]? = some m ∧ j = s.localVariableIndex + k := by
  induction names generalizing s with
  | nil => exact ⟨s, rfl, fun m j => by simp⟩
  | cons n names ih =>
      rw [List.map_cons, List.nodup_cons] at hnodup
      obtain ⟨t, hrun, hdecl⟩ := declareName_ok (hnames n List.mem_cons_self) s
      obtain ⟨hcache, hindex, hfreed'⟩ := hdecl.fresh hfreed (hnew n List.mem_cons_self)
      have hnew' : ∀ m ∈ names, t.localVariableCache (key m) = none := by
        intro m hm
        have hne : key m ≠ key n := fun heq => hnodup.1 (heq ▸ List.mem_map_of_mem hm)
        rw [hcache, Function.update_of_ne hne]
        exact hnew m (List.mem_cons_of_mem _ hm)
      obtain ⟨s', hrun', hs'⟩ :=
        ih (fun m hm => hnames m (List.mem_cons_of_mem _ hm)) hnodup.2 hfreed' hnew'
      refine ⟨s', (bind_ok (x := declareMark (some n)) hrun).trans hrun', fun m j => ?_⟩
      rw [hs' m j, hcache, update_some_iff, hindex]
      constructor
      · rintro ((⟨rfl, rfl⟩ | ⟨_, hm⟩) | ⟨k, hk, rfl⟩)
        · exact .inr ⟨0, rfl, by simp⟩
        · exact .inl hm
        · exact .inr ⟨k + 1, hk, by push_cast; ring⟩
      · rintro (hm | ⟨k, hk, rfl⟩)
        · refine .inl (.inr ⟨?_, hm⟩)
          rintro rfl
          rw [hnew n List.mem_cons_self] at hm
          cases hm
        · cases k with
          | zero =>
              rw [List.map_cons, List.getElem?_cons_zero, Option.some.injEq] at hk
              exact .inl (.inl ⟨hk.symm, by simp⟩)
          | succ k => exact .inr ⟨k, hk, by push_cast; ring⟩

theorem resetLocals_ok {i : Int} (hi : 1 ≤ i) (s : Locals) : resetLocals i s = .ok () (s.reset i) := by
  have hi' : ¬i < 1 := by omega
  rw [resetLocals, if_neg hi']
  rfl

theorem declareMarks_reset {names : List String} (hnames : ∀ n ∈ names, startswith n "$$" = true)
    (hnodup : (names.map key).Nodup) (s : Locals) (i : Int) :
    ∃ s', declareMarks (names.map some) (s.reset i) = .ok () s' ∧ Numbered (names.map key) i s' := by
  obtain ⟨s', hrun, hs'⟩ := declareMarks_fresh hnames hnodup (s := s.reset i) rfl fun _ _ => rfl
  refine ⟨s', hrun, fun m j => (hs' m j).trans (or_iff_right ?_)⟩
  exact fun h => by cases h

theorem declareMarks_ok {marks : List (Option String)}
    (hnames : ∀ n, some n ∈ marks → startswith n "$$" = true) (s : Locals) :
    ∃ s', declareMarks marks s = .ok () s' := by
  induction marks generalizing s with
  | nil => exact ⟨s, rfl⟩
  | cons mark marks ih =>
      have hrun : ∃ t, declareMark mark s = .ok () t := by
        cases mark with
        | none => exact ⟨_, resetLocals_ok (le_refl 1) s⟩
        | some n =>
            obtain ⟨t, hrun, -⟩ := declareName_ok (hnames n List.mem_cons_self) s
            exact ⟨t, hrun⟩
      obtain ⟨t, hrun⟩ := hrun
      obtain ⟨s', hs'⟩ := ih (fun n hn => hnames n (List.mem_cons_of_mem _ hn)) t
      exact ⟨s', (bind_ok hrun).trans hs'⟩

/-! ## declare_locals -/

/-- What a call that declares everything it is given leaves behind. -/
structure DeclaresAll (args : List Names) (i : Int) (reset : Bool) (s s' : Locals) : Prop where
  live : ∀ n ∈ listed args, ∃ j, s'.localVariableCache (key n) = some j
  distinct : ∀ n ∈ listed args, ∀ m ∈ listed args, n ≠ m →
    s'.localVariableCache (key n) ≠ s'.localVariableCache (key m)
  ordered : reset = true → ∀ (k : Nat) n, (listed args)[k]? = some n →
    s'.localVariableCache (key n) = some (i + k)
  kept : reset = false → ∀ m j, s.localVariableCache m = some j → s'.localVariableCache m = some j

/-- No argument is a list. -/
def NoList (args : List Names) : Prop := none ∉ marksOf args

/-- Every list, at any depth, begins before the first name. -/
def ListsFirst (args : List Names) : Prop :=
  ∃ k, marksOf args = List.replicate k none ++ (listed args).map some

/-- The resets of the lists undo nothing. -/
structure Unaffected (args : List Names) (i : Int) (reset : Bool) (s : Locals) : Prop where
  listsFirst : ListsFirst args
  start : reset = true → i = 1 ∨ listed args = []
  /-- The live names are those that the call numbers, with the numbers that it gives them. -/
  live : reset = false → ∀ m j, s.localVariableCache m = some j →
    ∃ k : Nat, ((listed args).map key)[k]? = some m ∧ j = 1 + k

theorem reduceOption_map_some (names : List String) : (names.map some).reduceOption = names := by
  induction names with
  | nil => rfl
  | cons n names ih => rw [List.map_cons, List.reduceOption_cons_of_some, ih]

theorem eq_map_some {marks : List (Option String)} (h : none ∉ marks) :
    marks = marks.reduceOption.map some := by
  induction marks with
  | nil => rfl
  | cons mark marks ih =>
      obtain ⟨hmark, hmarks⟩ := List.ne_and_not_mem_of_not_mem_cons h
      obtain ⟨n, rfl⟩ := Option.ne_none_iff_exists'.mp hmark.symm
      rw [List.reduceOption_cons_of_some, List.map_cons, ← ih hmarks]

/-- The last beginning of a list has only names after it. -/
theorem exists_last_list {marks : List (Option String)} (h : none ∈ marks) :
    ∃ before names, marks = before ++ none :: List.map some names := by
  induction marks with
  | nil => cases h
  | cons mark marks ih =>
      by_cases hmarks : none ∈ marks
      · obtain ⟨before, names, hsplit⟩ := ih hmarks
        exact ⟨mark :: before, names, by rw [hsplit]; rfl⟩
      · have hmark : mark = none := ((List.mem_cons.mp h).resolve_right hmarks).symm
        exact ⟨[], marks.reduceOption, by rw [hmark, ← eq_map_some hmarks]; rfl⟩

section

variable {args : List Names} {i : Int} {reset : Bool} {s s' : Locals}

theorem mem_listed {n : String} : n ∈ listed args ↔ some n ∈ marksOf args := by
  rw [listed, List.reduceOption_mem_iff]

theorem Numbered.declaresAll (h : Numbered ((listed args).map key) i s')
    (hkept : reset = false → ∀ m j, s.localVariableCache m = some j → s'.localVariableCache m = some j) :
    DeclaresAll args i reset s s' := by
  have hordered : ∀ (k : Nat) n, (listed args)[k]? = some n →
      s'.localVariableCache (key n) = some (i + k) := by
    intro k n hk
    exact (h (key n) _).mpr ⟨k, by rw [List.getElem?_map, hk]; rfl, rfl⟩
  refine ⟨fun n hn => ?_, fun n hn m hm hne heq => ?_, fun _ => hordered, hkept⟩
  · obtain ⟨k, hk⟩ := List.mem_iff_getElem?.mp hn
    exact ⟨_, hordered k n hk⟩
  · obtain ⟨k, hk⟩ := List.mem_iff_getElem?.mp hn
    obtain ⟨l, hl⟩ := List.mem_iff_getElem?.mp hm
    rw [hordered k n hk, hordered l m hl, Option.some.injEq, add_right_inj, Nat.cast_inj] at heq
    rw [heq, hl] at hk
    exact hne (Option.some.inj hk).symm

theorem listed_split {before : List (Option String)} {names : List String}
    (hsplit : marksOf args = before ++ none :: names.map some) :
    listed args = before.reduceOption ++ names := by
  rw [listed, hsplit, List.reduceOption_append, List.reduceOption_cons_of_none, reduceOption_map_some]

/-- The lists come first when no name stands before the last one. -/
theorem listsFirst_iff {before : List (Option String)} {names : List String}
    (hsplit : marksOf args = before ++ none :: names.map some) :
    ListsFirst args ↔ before.reduceOption = [] := by
  constructor
  · rintro ⟨k, hk⟩
    have hlast : (marksOf args)[before.length]? = some none := by rw [hsplit]; simp
    have hlt : before.length < k := by
      by_contra hge
      rw [hk, List.getElem?_append_right (by simpa using hge), List.getElem?_map] at hlast
      simp at hlast
    have hbefore : before = List.replicate before.length none := by
      have htake : (marksOf args).take before.length = before := by rw [hsplit, List.take_left']; rfl
      rw [hk, List.take_append_of_le_length (by simp; omega), List.take_replicate,
        min_eq_left hlt.le] at htake
      exact htake.symm
    rw [hbefore, List.reduceOption_replicate_none]
  · intro hnil
    have hbefore : before = List.replicate before.length none := by
      refine List.eq_replicate_iff.mpr ⟨rfl, fun mark hmark => ?_⟩
      cases mark with
      | none => rfl
      | some n =>
          have hn : n ∈ before.reduceOption := List.reduceOption_mem_iff.mpr hmark
          rw [hnil] at hn
          cases hn
    refine ⟨before.length + 1, ?_⟩
    rw [listed_split hsplit, hnil, List.nil_append, hsplit, List.replicate_succ',
      List.append_assoc, ← hbefore]
    rfl

/-- The last list, if there is one, decides what is live in the end. -/
theorem declareLocals_lists (hnames : ∀ n ∈ listed args, startswith n "$$" = true)
    (hnodup : (listed args).Nodup) (hi : 1 ≤ i) (reset : Bool) (s : Locals)
    {before : List (Option String)} {names : List String}
    (hsplit : marksOf args = before ++ none :: names.map some) :
    ∃ s', declareLocals args i reset s = .ok () s' ∧ Numbered (names.map key) 1 s' := by
  have hmem : ∀ n, some n ∈ marksOf args → startswith n "$$" = true :=
    fun n hn => hnames n (mem_listed.mpr hn)
  have hlisted := listed_split hsplit
  have hkeys : (names.map key).Nodup := by
    refine nodup_keys (fun n hn => hnames n ?_) (hlisted ▸ hnodup).of_append_right
    rw [hlisted]
    exact List.mem_append_right _ hn
  -- the marks up to the last list, from any state
  have hargs : ∀ t, ∃ s', declareArgs args t = .ok () s' ∧ Numbered (names.map key) 1 s' := by
    intro t
    rw [declareArgs_eq, hsplit]
    have hbefore : ∀ n, some n ∈ before → startswith n "$$" = true :=
      fun n hn => hmem n (by rw [hsplit]; simp [hn])
    obtain ⟨u, hu⟩ := declareMarks_ok hbefore t
    obtain ⟨s', hs', hnum⟩ := declareMarks_reset
      (fun n hn => hmem n (by rw [hsplit]; simp [hn])) hkeys u 1
    refine ⟨s', ?_, hnum⟩
    rw [declareMarks_append hu, declareMarks, declareMark, bind_ok (resetLocals_ok (le_refl 1) u)]
    exact hs'
  cases reset with
  | false => exact hargs s
  | true =>
      obtain ⟨s', hs', hnum⟩ := hargs (s.reset i)
      exact ⟨s', (bind_ok (resetLocals_ok hi s)).trans hs', hnum⟩

theorem declareLocals_noList (hs : Reached s) (hnames : ∀ n ∈ listed args, startswith n "$$" = true)
    (hnodup : (listed args).Nodup) (hi : 1 ≤ i) (reset : Bool) (h : NoList args) :
    ∃ s', declareLocals args i reset s = .ok () s' ∧ DeclaresAll args i reset s s' := by
  have hmarks : marksOf args = (listed args).map some := eq_map_some h
  have hkeys := nodup_keys hnames hnodup
  cases reset with
  | true =>
      obtain ⟨s', hs', hnum⟩ := declareMarks_reset hnames hkeys s i
      refine ⟨s', (bind_ok (resetLocals_ok hi s)).trans ?_,
        hnum.declaresAll fun hfalse => by cases hfalse⟩
      rw [declareArgs_eq, hmarks]
      exact hs'
  | false =>
      obtain ⟨s', hs', hlive, hkept⟩ := declareMarks_names hnames s
      have hrun : declareLocals args i false s = .ok () s' := by
        rw [← hmarks, ← declareArgs_eq] at hs'
        exact hs'
      have hinv : Inv s' := (declareLocals_maintains args i false).ok hs.inv hrun
      refine ⟨s', hrun, hlive, fun n hn m hm hne heq => ?_, (fun htrue => by cases htrue),
        fun _ => hkept⟩
      obtain ⟨j, hj⟩ := hlive n hn
      exact hne (key_inj (hnames n hn) (hnames m hm) (hinv.live_inj _ _ j hj (heq ▸ hj)))

end

/-- The call declares everything it is given exactly when no argument is a list, or the resets of
the lists undo nothing. -/
theorem declareLocals_iff {s : Locals} (hs : Reached s) {args : List Names}
    (hnames : ∀ n ∈ listed args, startswith n "$$" = true) (hnodup : (listed args).Nodup) {i : Int}
    (hi : 1 ≤ i) (reset : Bool) :
    (∃ s', declareLocals args i reset s = .ok () s' ∧ DeclaresAll args i reset s s') ↔
      NoList args ∨ Unaffected args i reset s := by
  by_cases hlist : NoList args
  · exact iff_of_true (declareLocals_noList hs hnames hnodup hi reset hlist) (.inl hlist)
  · obtain ⟨before, names, hsplit⟩ := exists_last_list (not_not.mp hlist)
    obtain ⟨s', hrun, hnum⟩ := declareLocals_lists hnames hnodup hi reset s hsplit
    have hlisted := listed_split hsplit
    constructor
    · rintro ⟨t, ht, hall⟩
      obtain rfl : s' = t := by
        rw [hrun] at ht
        cases ht
        rfl
      -- a name before the last list is not live any more
      have hbefore : before.reduceOption = [] := by
        refine List.eq_nil_iff_forall_not_mem.mpr fun n hn => ?_
        obtain ⟨j, hj⟩ := hall.live n (by rw [hlisted]; exact List.mem_append_left _ hn)
        obtain ⟨k, hk, -⟩ := (hnum _ _).mp hj
        obtain ⟨m, hm, hkey⟩ := List.mem_map.mp (List.mem_of_getElem? hk)
        rw [hlisted] at hnames hnodup
        have heq := key_inj (hnames m (List.mem_append_right _ hm))
          (hnames n (List.mem_append_left _ hn)) hkey
        exact List.disjoint_of_nodup_append hnodup hn (heq ▸ hm)
      rw [hbefore, List.nil_append] at hlisted
      refine .inr ⟨(listsFirst_iff hsplit).mpr hbefore, fun hreset => ?_, fun hreset m j hm => ?_⟩
      · rw [or_iff_not_imp_right]
        intro hne
        obtain ⟨n, ns, hcons⟩ := List.exists_cons_of_ne_nil hne
        have hfirst := hall.ordered hreset 0 n (by rw [hcons]; rfl)
        have hnum0 := (hnum (key n) 1).mpr ⟨0, by rw [← hlisted, hcons]; rfl, by simp⟩
        rw [hfirst, Option.some.injEq] at hnum0
        simpa using hnum0
      · rw [hlisted]
        exact (hnum m j).mp (hall.kept hreset m j hm)
    · rintro (h | h)
      · exact absurd h hlist
      · have hbefore := (listsFirst_iff hsplit).mp h.listsFirst
        rw [hbefore, List.nil_append] at hlisted
        rw [← hlisted] at hnum
        refine ⟨s', hrun, ?_⟩
        have hkept : reset = false → ∀ m j, s.localVariableCache m = some j →
            s'.localVariableCache m = some j :=
          fun hreset m j hm => (hnum m j).mpr (h.live hreset m j hm)
        cases reset with
        | false =>
            have hall : DeclaresAll args 1 false s s' := hnum.declaresAll hkept
            exact ⟨hall.live, hall.distinct, (fun htrue => by cases htrue), hkept⟩
        | true =>
            rcases h.start rfl with rfl | hnil
            · exact hnum.declaresAll hkept
            · rw [hnil] at hnum
              refine ⟨?_, ?_, ?_, hkept⟩ <;> simp [hnil]

/-- The first name is lost when the list after it is declared. -/
theorem declareLocals_forgets :
    ¬∀ s, Reached s → ∀ args, (∀ n ∈ listed args, startswith n "$$" = true) → (listed args).Nodup →
      ∀ i : Int, 1 ≤ i → ∀ reset,
        ∃ s', declareLocals args i reset s = .ok () s' ∧ DeclaresAll args i reset s s' := by
  intro h
  obtain ⟨s', hrun, hall⟩ :=
    h .extend ⟨[], rfl⟩ [.str "$$a", .list [.str "$$b"]] (by decide) (by decide) 1
    (le_refl 1) true
  obtain ⟨j, hj⟩ := hall.live "$$a" (by decide)
  have hlost : ∀ r, declareLocals [.str "$$a", .list [.str "$$b"]] 1 true .extend = .ok () r →
      r.localVariableCache (key "$$a") = none := by
    intro r hr
    cases hr
    decide
  rw [hlost s' hrun] at hj
  cases hj

theorem declareLocals_iff_sharedList :
    (∃ s', declareLocals [.list [.str "$$offset", .str "$$uart"]] 1 true .extend = .ok () s' ∧
      DeclaresAll [.list [.str "$$offset", .str "$$uart"]] 1 true .extend s') ↔
    NoList [.list [.str "$$offset", .str "$$uart"]] ∨
      Unaffected [.list [.str "$$offset", .str "$$uart"]] 1 true .extend :=
  declareLocals_iff ⟨[], rfl⟩ (by decide) (by decide) (le_refl 1) true

end Mlogv32.Template
