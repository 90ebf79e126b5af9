import Mlogv32.Python.Int
import Mathlib.Tactic.Common

/-!
# What int reads

`fromString` reads exactly the signed literals within the limit, with white space around them
(`fromString_iff`).
-/

namespace Mlogv32.Python

/-! ## Characters -/

theorem ne_of_digitValue {c x : Char} {d : Nat} (h : digitValue c = some d)
    (hx : digitValue x = none) : c ≠ x := by
  rintro rfl
  simp [h] at hx

theorem ne_of_isSpace {c x : Char} (h : isSpace c = true) (hx : isSpace x = false) : c ≠ x := by
  rintro rfl
  simp [h] at hx

theorem toNat_of_isSpace {c : Char} (h : isSpace c = true) : c.toNat ≤ 32 := by
  simp only [isSpace, Bool.or_eq_true, decide_eq_true_eq, Bool.and_eq_true] at h
  rcases h with rfl | ⟨_, h⟩
  · decide
  · omega

theorem digitValue_of_isSpace {c : Char} (h : isSpace c = true) : digitValue c = none := by
  have := toNat_of_isSpace h
  simp only [digitValue]
  rw [if_neg (by omega), if_neg (by omega), if_neg (by omega)]

theorem not_isSpace_of_digitValue {c : Char} {d : Nat} (h : digitValue c = some d) :
    isSpace c = false := by
  cases hs : isSpace c with
  | false => rfl
  | true => simp [digitValue_of_isSpace hs] at h

/-! ## Digits -/

section Digits
variable {base : Nat}

/-- The text after the digits. -/
def Stops (base : Nat) (rest : List Char) : Prop :=
  ∀ c s, rest = c :: s → c ≠ '_' ∧ ∀ d, digitValue c = some d → ¬d < base

theorem Stops.nil : Stops base [] := by
  intro c s h
  cases h

theorem Stops.of_spaces {rest : List Char} (h : rest.all isSpace = true) : Stops base rest := by
  intro c s hrest
  subst hrest
  simp only [List.all_cons, Bool.and_eq_true] at h
  refine ⟨ne_of_isSpace h.1 (by decide), fun d hd => ?_⟩
  simp [digitValue_of_isSpace h.1] at hd

theorem scanDigits_stop {rest : List Char} (h : Stops base rest) :
    scanDigits base true rest = some ([], rest) := by
  cases rest with
  | nil => rfl
  | cons c s =>
      obtain ⟨hc, hd⟩ := h c s rfl
      simp only [scanDigits, hc, if_false]
      cases hv : digitValue c with
      | none => simp
      | some d => simp [hd d hv]

theorem Digits.scan {cs rest : List Char} {ds : List Nat} (h : Digits base cs ds)
    (hrest : Stops base rest) (prev : Bool) :
    scanDigits base prev (cs ++ rest) = some (ds, rest) := by
  induction h generalizing prev with
  | last hv hd =>
      simp [scanDigits, ne_of_digitValue hv (x := '_') (by decide), hv, hd, scanDigits_stop hrest]
  | digit hv hd _ ih =>
      simp [scanDigits, ne_of_digitValue hv (x := '_') (by decide), hv, hd, ih]
  | underscore hv hd _ ih =>
      simp [scanDigits, ne_of_digitValue hv (x := '_') (by decide), hv, hd, ih]

/-- What the loop has read. After a digit there may be an underscore, and there may be nothing. -/
theorem scanDigits_sound {prev : Bool} {s rest : List Char} {ds : List Nat}
    (h : scanDigits base prev s = some (ds, rest)) :
    Stops base rest ∧ ((∃ cs, s = cs ++ rest ∧ Digits base cs ds) ∨
      (prev = true ∧ ((ds = [] ∧ s = rest) ∨ ∃ cs, s = '_' :: cs ++ rest ∧ Digits base cs ds))) := by
  fun_induction scanDigits base prev s generalizing ds with
  | case1 =>
      cases h
      exact ⟨Stops.nil, .inr ⟨rfl, .inl ⟨rfl, rfl⟩⟩⟩
  | case2 => cases h
  | case3 s ih =>
      obtain ⟨hstop, ⟨cs, rfl, hcs⟩ | ⟨hfalse, _⟩⟩ := ih h
      · exact ⟨hstop, .inr ⟨rfl, .inr ⟨cs, rfl, hcs⟩⟩⟩
      · cases hfalse
  | case4 => cases h
  | case5 prev c s hc d hv hd ih =>
      simp only [Option.map_eq_some_iff] at h
      obtain ⟨⟨ds', rest'⟩, hscan, heq⟩ := h
      cases heq
      obtain ⟨hstop, ⟨cs, rfl, hcs⟩ | ⟨_, ⟨rfl, rfl⟩ | ⟨cs, rfl, hcs⟩⟩⟩ := ih hscan
      · exact ⟨hstop, .inl ⟨c :: cs, rfl, .digit hv hd hcs⟩⟩
      · exact ⟨hstop, .inl ⟨[c], rfl, .last hv hd⟩⟩
      · exact ⟨hstop, .inl ⟨c :: '_' :: cs, rfl, .underscore hv hd hcs⟩⟩
  | case6 c s hc d hv hd =>
      cases h
      refine ⟨?_, .inr ⟨rfl, .inl ⟨rfl, rfl⟩⟩⟩
      intro c' s' heq
      cases heq
      refine ⟨hc, fun d' hd' => ?_⟩
      rw [hv, Option.some.injEq] at hd'
      exact hd' ▸ hd
  | case7 => cases h
  | case8 c s hc hv =>
      cases h
      refine ⟨?_, .inr ⟨rfl, .inl ⟨rfl, rfl⟩⟩⟩
      intro c' s' heq
      cases heq
      exact ⟨hc, fun d' hd' => by simp [hv] at hd'⟩
  | case9 => cases h

theorem Digits.head {cs : List Char} {ds : List Nat} (h : Digits base cs ds) :
    ∃ c d cs', cs = c :: cs' ∧ digitValue c = some d ∧ d < base := by
  cases h with
  | last hv hd => exact ⟨_, _, _, rfl, hv, hd⟩
  | digit hv hd _ => exact ⟨_, _, _, rfl, hv, hd⟩
  | underscore hv hd _ => exact ⟨_, _, _, rfl, hv, hd⟩

theorem Digits.chars {cs : List Char} {ds : List Nat} (h : Digits base cs ds) {c : Char} (hc : c ∈ cs) :
    c = '_' ∨ ∃ d, digitValue c = some d ∧ d < base := by
  induction h with
  | last hv hd =>
      simp only [List.mem_singleton] at hc
      exact .inr ⟨_, hc ▸ hv, hd⟩
  | digit hv hd _ ih =>
      rcases List.mem_cons.mp hc with rfl | hc
      · exact .inr ⟨_, hv, hd⟩
      · exact ih hc
  | underscore hv hd _ ih =>
      rcases List.mem_cons.mp hc with rfl | hc
      · exact .inr ⟨_, hv, hd⟩
      rcases List.mem_cons.mp hc with rfl | hc
      · exact .inl rfl
      · exact ih hc

end Digits

/-! ## Literals -/

theorem literalBase_eq_none {c : Char}
    (h : c = '_' ∨ isSpace c = true ∨ ∃ d, digitValue c = some d ∧ d < 10) :
    literalBase c = none := by
  rcases h with rfl | h | ⟨d, hv, hd⟩
  · decide
  · simp [literalBase, ne_of_isSpace h (x := 'x') (by decide), ne_of_isSpace h (x := 'X') (by decide),
      ne_of_isSpace h (x := 'o') (by decide), ne_of_isSpace h (x := 'O') (by decide),
      ne_of_isSpace h (x := 'b') (by decide), ne_of_isSpace h (x := 'B') (by decide)]
  · have hne (x : Char) (hx : ∀ d, digitValue x = some d → ¬d < 10) : c ≠ x := by
      rintro rfl
      exact hx d hv hd
    simp [literalBase, hne 'x' (by decide), hne 'X' (by decide),
      hne 'o' (by decide), hne 'O' (by decide), hne 'b' (by decide), hne 'B' (by decide)]

theorem scanBase_of_ne {c : Char} (h : c ≠ '0') (s : List Char) :
    scanBase (c :: s) = (10, false, c :: s) := by
  unfold scanBase
  split
  · next heq =>
      cases heq
      exact absurd rfl h
  · next heq =>
      cases heq
      exact absurd rfl h
  · rfl

theorem scanBase_zero {s : List Char}
    (h : ∀ c t, s = c :: t → c = '_' ∨ isSpace c = true ∨ ∃ d, digitValue c = some d ∧ d < 10) :
    scanBase ('0' :: s) = (10, true, '0' :: s) := by
  cases s with
  | nil => rfl
  | cons c t => simp [scanBase, literalBase_eq_none (h c t rfl)]

theorem Literal.scan {base : Nat} {ds : List Nat} {l rest : List Char} (h : Literal base ds l)
    (hrest : rest.all isSpace = true) :
    ∃ nz t, scanBase (l ++ rest) = (base, nz, t) ∧ scanDigits base false t = some (ds, rest) ∧
      (nz = true → ∀ d ∈ ds, d = 0) := by
  have hstop (base : Nat) : Stops base rest := Stops.of_spaces hrest
  cases h with
  | decimal hc hds => exact ⟨false, _, scanBase_of_ne hc _, hds.scan (hstop _) false, by simp⟩
  | zero hzero hds =>
      obtain ⟨c, d, cs, rfl, hv, hd⟩ := hds.head
      by_cases hc : c = '0'
      · subst hc
        refine ⟨true, _, scanBase_zero (s := cs ++ rest) ?_, hds.scan (hstop _) false, fun _ => hzero⟩
        intro c' t heq
        cases cs with
        | nil =>
            simp only [List.nil_append] at heq
            subst heq
            simp only [List.all_cons, Bool.and_eq_true] at hrest
            exact .inr (.inl hrest.1)
        | cons c'' cs =>
            simp only [List.cons_append, List.cons.injEq] at heq
            obtain ⟨rfl, _⟩ := heq
            rcases hds.chars (c := c'') (by simp) with h | h
            · exact .inl h
            · exact .inr (.inr h)
      · exact ⟨false, _, scanBase_of_ne hc _, hds.scan (hstop _) false, by simp⟩
  | based hp hds =>
      obtain ⟨c, d, cs, rfl, hv, hd⟩ := hds.head
      have hskip : skipUnderscore (c :: (cs ++ rest)) = c :: (cs ++ rest) := by
        unfold skipUnderscore
        split
        · next heq =>
            cases heq
            simp [show digitValue '_' = none from by decide] at hv
        · rfl
      exact ⟨false, c :: cs ++ rest, by simp [scanBase, hp, hskip], hds.scan (hstop _) false, by simp⟩
  | underscore hp hds =>
      exact ⟨false, _, by simp only [List.cons_append, scanBase, hp]; rfl,
        hds.scan (hstop _) false, by simp⟩

theorem scanDigits_false {base : Nat} {s rest : List Char} {ds : List Nat}
    (h : scanDigits base false s = some (ds, rest)) : ∃ cs, s = cs ++ rest ∧ Digits base cs ds := by
  obtain ⟨_, h | ⟨hfalse, _⟩⟩ := scanDigits_sound h
  · exact h
  · cases hfalse

theorem Literal.of_scan {base : Nat} {ds : List Nat} {s t rest : List Char} {nz : Bool}
    (hstart : scanBase s = (base, nz, t)) (hscan : scanDigits base false t = some (ds, rest))
    (hzero : nz = true → ∀ d ∈ ds, d = 0) : ∃ l, s = l ++ rest ∧ Literal base ds l := by
  obtain ⟨cs, ht, hds⟩ := scanDigits_false hscan
  unfold scanBase at hstart
  split at hstart
  · next p u =>
      split at hstart
      · next base' hp =>
          cases hstart
          unfold skipUnderscore at ht
          split at ht
          · next v => exact ⟨'0' :: p :: '_' :: cs, by simp [ht], .underscore hp hds⟩
          · exact ⟨'0' :: p :: cs, by simp [ht], .based hp hds⟩
      · cases hstart
        exact ⟨cs, ht, .zero (hzero rfl) hds⟩
  · cases hstart
    exact ⟨cs, ht, .zero (hzero rfl) hds⟩
  · next hne hne' =>
      cases hstart
      obtain ⟨c, d, cs', rfl, _⟩ := hds.head
      refine ⟨c :: cs', ht, .decimal ?_ hds⟩
      rintro rfl
      subst ht
      cases hr : cs' ++ rest with
      | nil => exact hne' (by simp [hr])
      | cons p u => exact hne p u (by simp [hr])

theorem Literal.head {base : Nat} {ds : List Nat} {l : List Char} (h : Literal base ds l) :
    ∃ c d cs, l = c :: cs ∧ digitValue c = some d := by
  cases h with
  | decimal _ hds | zero _ hds =>
      obtain ⟨c, d, cs, hl, hv, _⟩ := hds.head
      exact ⟨c, d, cs, hl, hv⟩
  | based | underscore => exact ⟨'0', 0, _, rfl, by decide⟩

/-! ## fromString -/

theorem scanSign_of_digit {c : Char} {d : Nat} (h : digitValue c = some d) (s : List Char) :
    scanSign (c :: s) = (false, c :: s) := by
  unfold scanSign
  split
  · next heq =>
      cases heq
      simp [show digitValue '+' = none from by decide] at h
  · next heq =>
      cases heq
      simp [show digitValue '-' = none from by decide] at h
  · rfl

theorem SignedLiteral.head {base : Nat} {ds : List Nat} {l : List Char} {v : Int}
    (h : SignedLiteral base ds l v) :
    ∃ c cs, l = c :: cs ∧ isSpace c = false := by
  cases h with
  | unsigned hl =>
      obtain ⟨c, d, cs, rfl, hv⟩ := hl.head
      exact ⟨c, cs, rfl, not_isSpace_of_digitValue hv⟩
  | plus | minus => exact ⟨_, _, rfl, by decide⟩

theorem dropWhile_spaces {pre : List Char} (hpre : pre.all isSpace = true) {c : Char}
    (hc : isSpace c = false) (s : List Char) : (pre ++ c :: s).dropWhile isSpace = c :: s := by
  induction pre with
  | nil => simp [hc]
  | cons p pre ih =>
      simp only [List.all_cons, Bool.and_eq_true] at hpre
      simp [hpre.1, ih hpre.2]

theorem SignedLiteral.scan {base : Nat} {ds : List Nat} {l rest : List Char} {v : Int}
    (h : SignedLiteral base ds l v) (hrest : rest.all isSpace = true) :
    ∃ negative s nz t, scanSign (l ++ rest) = (negative, s) ∧ scanBase s = (base, nz, t) ∧
      scanDigits base false t = some (ds, rest) ∧ (nz = true → ∀ d ∈ ds, d = 0) ∧
      v = if negative then -(value base ds : Int) else value base ds := by
  cases h with
  | unsigned hl =>
      obtain ⟨nz, t, hstart, hscan, hzero⟩ := hl.scan hrest
      obtain ⟨c, d, cs, rfl, hv⟩ := hl.head
      exact ⟨false, _, nz, t, scanSign_of_digit hv _, hstart, hscan, hzero, rfl⟩
  | plus hl =>
      obtain ⟨nz, t, hstart, hscan, hzero⟩ := hl.scan hrest
      exact ⟨false, _, nz, t, rfl, hstart, hscan, hzero, rfl⟩
  | minus hl =>
      obtain ⟨nz, t, hstart, hscan, hzero⟩ := hl.scan hrest
      exact ⟨true, _, nz, t, rfl, hstart, hscan, hzero, rfl⟩

theorem SignedLiteral.of_scan {base : Nat} {ds : List Nat} {s s' t rest : List Char} {negative nz : Bool}
    (hsign : scanSign s = (negative, s')) (hstart : scanBase s' = (base, nz, t))
    (hscan : scanDigits base false t = some (ds, rest)) (hzero : nz = true → ∀ d ∈ ds, d = 0) :
    ∃ l, s = l ++ rest ∧ SignedLiteral base ds l (if negative then -(value base ds : Int)
      else value base ds) := by
  obtain ⟨l, rfl, hl⟩ := Literal.of_scan hstart hscan hzero
  unfold scanSign at hsign
  split at hsign
  · cases hsign
    exact ⟨'+' :: l, rfl, .plus hl⟩
  · cases hsign
    exact ⟨'-' :: l, rfl, .minus hl⟩
  · cases hsign
    exact ⟨l, rfl, .unsigned hl⟩

/-- Literals with white space around them, within the limit. -/
theorem fromString_iff {s : List Char} {v : Int} :
    fromString s = some v ↔ ∃ pre l post base ds, s = pre ++ l ++ post ∧ pre.all isSpace = true ∧
      post.all isSpace = true ∧ SignedLiteral base ds l v ∧ WithinLimit base ds := by
  constructor
  · intro h
    unfold fromString at h
    obtain ⟨negative, s', hsign⟩ : ∃ negative s', scanSign (s.dropWhile isSpace) =
      (negative, s') := ⟨_, _, rfl⟩
    obtain ⟨base, nz, t, hstart⟩ : ∃ base nz t, scanBase s' = (base, nz, t) := ⟨_, _, _, rfl⟩
    simp only [hsign, hstart] at h
    split at h
    · next ds rest hscan =>
        split at h
        · next hcond =>
            simp only [Bool.and_eq_true, decide_eq_true_eq, Bool.not_eq_true',
              Bool.and_eq_false_iff] at hcond
            obtain ⟨⟨hrest, hlimit⟩, hzero⟩ := hcond
            have hzero' : nz = true → ∀ d ∈ ds, d = 0 := by
              rintro rfl d hd
              simpa using List.any_eq_false.mp (hzero.resolve_left (by simp)) d hd
            obtain ⟨l, hl, hsigned⟩ := SignedLiteral.of_scan hsign hstart hscan hzero'
            simp only [Option.some.injEq] at h
            refine ⟨s.takeWhile isSpace, l, rest, base, ds, ?_, List.all_takeWhile,
              hrest, h ▸ hsigned, hlimit⟩
            rw [List.append_assoc, ← hl, List.takeWhile_append_dropWhile]
        · cases h
    · cases h
  · rintro ⟨pre, l, post, base, ds, rfl, hpre, hpost, hl, hlimit⟩
    obtain ⟨c, cs, rfl, hc⟩ := hl.head
    obtain ⟨negative, s, nz, t, hsign, hstart, hscan, hzero, rfl⟩ := hl.scan hpost
    have hany : (nz && ds.any (· != 0)) = false := by
      cases nz with
      | false => rfl
      | true => simpa using hzero rfl
    unfold fromString
    rw [List.append_assoc, List.cons_append, dropWhile_spaces hpre hc, ← List.cons_append]
    simp only [hsign, hstart, hscan, hpost, hlimit, hany, decide_true,
      Bool.and_self, Bool.not_false, if_true]

/-! ## Texts of literals -/

/-- The characters of a signed literal. The letters of the prefixes count as digits. -/
theorem SignedLiteral.chars {base : Nat} {ds : List Nat} {l : List Char} {v : Int}
    (h : SignedLiteral base ds l v) {c : Char} (hc : c ∈ l) :
    c = '_' ∨ c = '+' ∨ c = '-' ∨ ∃ d, digitValue c = some d := by
  have hdigits {base : Nat} {cs : List Char} (hds : Digits base cs ds) (hc : c ∈ cs) :
      c = '_' ∨ ∃ d, digitValue c = some d := by
    rcases hds.chars hc with rfl | ⟨d, hv, _⟩
    · exact .inl rfl
    · exact .inr ⟨d, hv⟩
  have hstart {p : Char} {base : Nat} (hp : literalBase p = some base) : ∃ d, digitValue p = some d := by
    unfold literalBase at hp
    split_ifs at hp with hx ho hb
    · rcases hx with rfl | rfl <;> exact ⟨33, by decide⟩
    · rcases ho with rfl | rfl <;> exact ⟨24, by decide⟩
    · rcases hb with rfl | rfl <;> exact ⟨11, by decide⟩
  have hliteral {cs : List Char} (hl : Literal base ds cs) (hc : c ∈ cs) : c = '_' ∨ ∃ d,
      digitValue c = some d := by
    cases hl with
    | decimal _ hds | zero _ hds => exact hdigits hds hc
    | based hp hds =>
        simp only [List.mem_cons] at hc
        rcases hc with rfl | rfl | hc
        · exact .inr ⟨0, by decide⟩
        · exact .inr (hstart hp)
        · exact hdigits hds hc
    | underscore hp hds =>
        simp only [List.mem_cons] at hc
        rcases hc with rfl | rfl | rfl | hc
        · exact .inr ⟨0, by decide⟩
        · exact .inr (hstart hp)
        · exact .inl rfl
        · exact hdigits hds hc
  have hweaken : (c = '_' ∨ ∃ d, digitValue c = some d) → c = '_' ∨ c = '+' ∨ c = '-' ∨ ∃ d,
      digitValue c = some d := by
    rintro (h | h)
    · exact .inl h
    · exact .inr (.inr (.inr h))
  cases h with
  | unsigned hl => exact hweaken (hliteral hl hc)
  | plus hl =>
      rcases List.mem_cons.mp hc with rfl | hc
      · exact .inr (.inl rfl)
      · exact hweaken (hliteral hl hc)
  | minus hl =>
      rcases List.mem_cons.mp hc with rfl | hc
      · exact .inr (.inr (.inl rfl))
      · exact hweaken (hliteral hl hc)

theorem SignedLiteral.not_mem {base : Nat} {ds : List Nat} {l : List Char} {v : Int}
    (h : SignedLiteral base ds l v) {c : Char} (hc : c ≠ '_' ∧ c ≠ '+' ∧ c ≠ '-')
    (hd : digitValue c = none) : c ∉ l := by
  intro hmem
  rcases h.chars hmem with rfl | rfl | rfl | ⟨d, hv⟩
  · exact hc.1 rfl
  · exact hc.2.1 rfl
  · exact hc.2.2 rfl
  · simp [hd] at hv

theorem toNat_of_digitValue {c : Char} {d : Nat} (h : digitValue c = some d) : c.toNat < 128 := by
  unfold digitValue at h
  split_ifs at h <;> omega

theorem SignedLiteral.map_toAscii {base : Nat} {ds : List Nat} {l : List Char} {v : Int}
    (h : SignedLiteral base ds l v) (u : Unicode) : l.map u.toAscii = l := by
  refine (List.map_congr_left fun c hc => ?_).trans (List.map_id l)
  have hascii : c.toNat < 128 := by
    rcases h.chars hc with rfl | rfl | rfl | ⟨d, hv⟩
    · decide
    · decide
    · decide
    · exact toNat_of_digitValue hv
  simp [Unicode.toAscii, hascii]

/-- A text is at most one literal. -/
theorem SignedLiteral.unique {base base' : Nat} {ds ds' : List Nat} {l : List Char} {v v' : Int}
    (h : SignedLiteral base ds l v) (h' : SignedLiteral base' ds' l v') :
    base = base' ∧ ds = ds' ∧ v = v' := by
  have hrest : ([] : List Char).all isSpace = true := rfl
  obtain ⟨negative, s, nz, t, hsign, hstart, hscan, _, rfl⟩ := h.scan hrest
  obtain ⟨negative', s', nz', t', hsign', hstart', hscan', _, rfl⟩ := h'.scan hrest
  rw [hsign, Prod.mk.injEq] at hsign'
  obtain ⟨rfl, rfl⟩ := hsign'
  rw [hstart, Prod.mk.injEq, Prod.mk.injEq] at hstart'
  obtain ⟨rfl, rfl, rfl⟩ := hstart'
  rw [hscan, Option.some.injEq, Prod.mk.injEq] at hscan'
  obtain ⟨rfl, _⟩ := hscan'
  exact ⟨rfl, rfl, rfl⟩

theorem int_literal {base : Nat} {ds : List Nat} {l : List Char} {v : Int}
    (h : SignedLiteral base ds l v) (u : Unicode) :
    int u l = if WithinLimit base ds then some v else none := by
  unfold int
  rw [h.map_toAscii]
  split_ifs with hlimit
  · exact fromString_iff.mpr ⟨[], l, [], base, ds, by simp, rfl, rfl, h, hlimit⟩
  · cases hr : fromString l with
    | none => rfl
    | some w =>
        obtain ⟨pre, l', post, base', ds', hl, hpre, hpost, h', hlimit'⟩ := fromString_iff.mp hr
        -- no character of a literal is white space, so nothing stands around the literal that `int`
        -- found
        have hspace {c : Char} (hc : c ∈ l) : isSpace c = false := by
          rcases h.chars hc with rfl | rfl | rfl | ⟨d, hv⟩
          · decide
          · decide
          · decide
          · exact not_isSpace_of_digitValue hv
        have hnil {cs : List Char} (hcs : cs.all isSpace = true) (hsub : ∀ c ∈ cs, c ∈ l) : cs = [] := by
          cases cs with
          | nil => rfl
          | cons c cs =>
              simp only [List.all_cons, Bool.and_eq_true] at hcs
              simp [hspace (hsub c (by simp))] at hcs
        have hpre' := hnil hpre fun c hc => by simp [hl, hc]
        have hpost' := hnil hpost fun c hc => by simp [hl, hc]
        subst hpre' hpost'
        simp only [List.nil_append, List.append_nil] at hl
        subst hl
        obtain ⟨rfl, rfl, _⟩ := h.unique h'
        exact absurd hlimit' hlimit

end Mlogv32.Python
