import Mlogv32.Parser.Lemmas.Lexer

/-!
# Pieces of a text

How the reading of the game runs over a text: the text of a piece (`items_piece`), separators and
comments.
-/

namespace Mlogv32.Parser

/-! ## Classes of characters -/

inductive CharClass where
  | token
  | hash
  | separator
  | blank
  deriving DecidableEq

def classOf (c : Char) : CharClass :=
  if isSeparator c then .separator else if isBlank c then .blank else if c = '#' then .hash else .token

theorem isSeparator_iff {c : Char} : isSeparator c = true ↔ classOf c = .separator := by
  unfold classOf
  split_ifs <;> simp_all

theorem isBlank_iff {c : Char} : isBlank c = true ↔ classOf c = .blank := by
  unfold classOf
  split_ifs with h
  · simp only [isSeparator, Bool.or_eq_true, decide_eq_true_eq] at h
    rcases h with rfl | rfl <;> decide
  · simp_all
  · simp_all
  · simp_all

theorem hash_iff {c : Char} : c = '#' ↔ classOf c = .hash := by
  constructor
  · rintro rfl
    decide
  · unfold classOf
    split_ifs <;> simp_all

theorem isTokenChar_iff {c : Char} : isTokenChar c = true ↔ classOf c = .token := by
  simp only [classOf, isTokenChar, isSeparator, isBlank, Bool.or_eq_true,
    decide_eq_true_eq, Bool.and_eq_true, ne_eq,
    decide_not, Bool.not_eq_true', decide_eq_false_iff_not]
  split_ifs with h₁ h₂ h₃ <;> simp <;> tauto

/-- A line break, a `;` or a `#`. -/
def isEnd (c : Char) : Bool := isSeparator c || c = '#'

theorem isEnd_iff {c : Char} : isEnd c = true ↔ classOf c = .separator ∨ classOf c = .hash := by
  simp only [isEnd, Bool.or_eq_true, decide_eq_true_eq, isSeparator_iff, hash_iff]

theorem isEnd_eq_false {c : Char} : isEnd c = false ↔ classOf c = .token ∨ classOf c = .blank := by
  rw [← Bool.not_eq_true, isEnd_iff]
  cases classOf c <;> simp

theorem isBlank_of_isEnd {c : Char} (h : isEnd c = true) : isBlank c = false := by
  rw [← Bool.not_eq_true, isBlank_iff]
  rcases isEnd_iff.mp h with h | h <;> simp [h]

/-- Nothing, or a text that begins with the end of a statement. -/
def Ends (t : List Char) : Prop := ∀ c s, t = c :: s → isEnd c = true

theorem Ends.nil : Ends [] := by
  intro c s h
  cases h

/-! ## Lines -/

theorem closes_append {a : List Char} (ha : '\n' ∉ a) (s : List Char) :
    closes (a ++ s) = (decide ('"' ∈ a) || closes s) := by
  unfold closes
  have hall : ∀ c ∈ a, decide (c ≠ '\n') = true := by
    intro c hc
    simp only [decide_eq_true_eq]
    rintro rfl
    exact ha hc
  rw [takeWhile_append_of_all hall]
  simp [List.mem_append]

theorem closes_cons {c : Char} (hc : c ≠ '\n') (s : List Char) :
    closes (c :: s) = (decide (c = '"') || closes s) := by
  have := closes_append (a := [c]) (by simpa using hc.symm) s
  simpa [eq_comm] using this

/-! ## Pieces -/

/-- The text of a piece and the rest. The flag says that the text begins in a string literal. -/
def cut : Bool → List Char → List Char × List Char
  | _, [] => ([], [])
  | true, c :: s => (c :: (cut (c ≠ '"') s).1, (cut (c ≠ '"') s).2)
  | false, c :: s =>
    if isEnd c then ([], c :: s)
    else (c :: (cut (c = '"' && closes s) s).1, (cut (c = '"' && closes s) s).2)

theorem cut_append (b : Bool) (s : List Char) : (cut b s).1 ++ (cut b s).2 = s := by
  fun_induction cut b s with
  | case1 | case3 => rfl
  | case2 c s ih | case4 c s _ ih => exact congrArg (c :: ·) ih

theorem cut_ends (b : Bool) (s : List Char) : Ends (cut b s).2 := by
  fun_induction cut b s with
  | case1 => exact .nil
  | case2 c s ih | case4 c s _ ih => exact ih
  | case3 c s hc =>
      intro c' s' h
      cases h
      exact hc

/-- What is read after a piece. -/
def itemsAfter (pos : Nat) : List Char → List Item
  | [] => []
  | c :: s => if c = '#' then items .comment none (pos + 1) s else items .code none pos (c :: s)

theorem items_cut (b : Bool) (start : Nat) (cs : List Char) (pos : Nat) (s : List Char) :
    items (if b then .string else .code) (some (start, cs)) pos s =
      .piece ⟨start, cs.reverse ++ (cut b s).1, (cut b s).2⟩ ::
        itemsAfter (pos + (cut b s).1.length) (cut b s).2 := by
  induction s generalizing b cs pos with
  | nil => cases b <;> simp [items, cut, Current.flush, itemsAfter]
  | cons c s ih =>
      cases b with
      | true =>
          have := ih (c ≠ '"') (c :: cs) (pos + 1)
          by_cases hc : c = '"'
          · simp only [hc, ne_eq, not_true_eq_false, decide_false, Bool.false_eq_true, if_false] at this
            simp [items, Current.push, cut, hc, this, Nat.add_assoc, Nat.add_comm 1]
          · simp only [ne_eq, hc, not_false_eq_true, decide_true, if_true] at this
            simp [items, Current.push, cut, hc, this, Nat.add_assoc, Nat.add_comm 1]
      | false =>
          by_cases hend : isEnd c = true
          · simp only [cut, hend, if_true, items, Current.flush, Current.comment,
              itemsAfter, List.append_nil,
              List.length_nil, Nat.add_zero, List.singleton_append, Bool.false_eq_true, if_false]
            by_cases hsep : isSeparator c = true
            · have hhash : c ≠ '#' := by
                rintro rfl
                exact absurd hsep (by decide)
              simp [hsep, hhash]
            · obtain rfl : c = '#' := by simpa [isEnd, hsep] using hend
              simp [hsep]
          · have hsep : isSeparator c = false := by
              simp only [isEnd, Bool.or_eq_true, not_or, Bool.not_eq_true] at hend
              exact hend.1
            have hhash : c ≠ '#' := by
              simp only [isEnd, Bool.or_eq_true, not_or, decide_eq_true_eq] at hend
              exact hend.2
            have := ih (c = '"' && closes s) (c :: cs) (pos + 1)
            simp only [Bool.and_eq_true, decide_eq_true_eq] at this
            simp [items, hsep, hhash, Current.push, cut, hend, this, Nat.add_assoc, Nat.add_comm 1]

theorem items_piece {c : Char} (hc : isTokenChar c = true) (pos : Nat) (s : List Char) :
    items .code none pos (c :: s) =
      .piece ⟨pos, (cut false (c :: s)).1, (cut false (c :: s)).2⟩ ::
        itemsAfter (pos + (cut false (c :: s)).1.length) (cut false (c :: s)).2 := by
  have hclass := isTokenChar_iff.mp hc
  have hsep : isSeparator c = false := by simp [← Bool.not_eq_true, isSeparator_iff, hclass]
  have hhash : c ≠ '#' := fun h => by simp [hash_iff.mp h] at hclass
  have hblank : isBlank c = false := by simp [← Bool.not_eq_true, isBlank_iff, hclass]
  have hend : isEnd c = false := isEnd_eq_false.mpr (.inl hclass)
  have := items_cut (c = '"' && closes s) pos [c] (pos + 1) s
  simp only [Bool.and_eq_true, decide_eq_true_eq] at this
  simp [items, hsep, hhash, Current.push, hblank, cut, hend, this, Nat.add_assoc, Nat.add_comm 1]

theorem items_blank {c : Char} (hc : isBlank c = true) (pos : Nat) (s : List Char) :
    items .code none pos (c :: s) = items .code none (pos + 1) s := by
  have hclass := isBlank_iff.mp hc
  have hsep : isSeparator c = false := by simp [← Bool.not_eq_true, isSeparator_iff, hclass]
  have hhash : c ≠ '#' := fun h => by simp [hash_iff.mp h] at hclass
  have hquote : c ≠ '"' := by
    rintro rfl
    exact absurd hc (by decide)
  simp [items, hsep, hhash, hquote, Current.push, hc]

theorem items_separator {c : Char} (hc : isSeparator c = true) (pos : Nat) (s : List Char) :
    items .code none pos (c :: s) = items .code none (pos + 1) s := by
  simp [items, hc, Current.flush]

theorem items_blanks {a : List Char} (ha : ∀ c ∈ a, isBlank c = true) (pos : Nat) (s : List Char) :
    items .code none pos (a ++ s) = items .code none (pos + a.length) s := by
  induction a generalizing pos with
  | nil => rfl
  | cons c a ih =>
      rw [List.cons_append, items_blank (ha c (by simp)), ih (fun d hd => ha d (by simp [hd]))]
      simp [Nat.add_assoc, Nat.add_comm 1]

theorem items_separators {a : List Char} (ha : ∀ c ∈ a, isSeparator c = true) (pos : Nat)
    (s : List Char) :
    items .code none pos (a ++ s) = items .code none (pos + a.length) s := by
  induction a generalizing pos with
  | nil => rfl
  | cons c a ih =>
      rw [List.cons_append, items_separator (ha c (by simp)), ih (fun d hd => ha d (by simp [hd]))]
      simp [Nat.add_assoc, Nat.add_comm 1]

theorem items_comment_append {a : List Char} (ha : '\n' ∉ a) (pos : Nat) (s : List Char) :
    items .comment none pos (a ++ s) = items .comment none (pos + a.length) s := by
  induction a generalizing pos with
  | nil => rfl
  | cons c a ih =>
      simp only [List.mem_cons, not_or] at ha
      simp only [List.cons_append, items, Ne.symm ha.1, if_false, ih ha.2]
      simp [Nat.add_assoc, Nat.add_comm 1]

/-- At the end of a line there is nothing left of a comment. -/
theorem items_comment_end {s : List Char} (hs : s.takeWhile (· ≠ '\n') = []) (pos : Nat) :
    items .comment none pos s = items .code none pos s := by
  cases s with
  | nil => rfl
  | cons c s =>
      have hc : c = '\n' := by
        by_contra hc
        simp [hc] at hs
      subst hc
      rw [items_separator (by decide)]
      simp [items]

theorem items_hash (pos : Nat) (s : List Char) :
    items .code none pos ('#' :: s) =
      .comment (('#' :: s).takeWhile (· ≠ '\n')) :: items .comment none (pos + 1) s := by
  simp [items, show isSeparator '#' = false by decide, Current.flush, Current.comment]

/-! ## A string argument -/

theorem cut_of_not_closes {x t : List Char} (hx : ∀ c ∈ x, isEnd c = false) (ht : Ends t)
    (hcloses : closes (x ++ t) = false) : cut false (x ++ t) = (x, t) := by
  induction x with
  | nil =>
      cases t with
      | nil => rfl
      | cons c s => simp [cut, ht c s rfl]
  | cons c x ih =>
      have hc := hx c (by simp)
      have hnewline : c ≠ '\n' := by
        rintro rfl
        exact absurd hc (by decide)
      rw [List.cons_append, closes_cons hnewline, Bool.or_eq_false_iff] at hcloses
      have hquote : c ≠ '"' := by simpa using hcloses.1
      simp [cut, hc, hquote, ih (fun d hd => hx d (by simp [hd])) hcloses.2]

/-- A line whose last double quote is followed by `x` and the end `t` of a statement: a piece that
begins before the quote ends at `t`, or the quote comes after the piece. -/
theorem cut_of_last_quote {a x t : List Char} (ha : '\n' ∉ a) (hx : ∀ c ∈ x, isEnd c = false)
    (ht : Ends t) (hcloses : closes (x ++ t) = false) (b : Bool) :
    (cut b (a ++ '"' :: (x ++ t))).2 = t ∨ closes (cut b (a ++ '"' :: (x ++ t))).2 = true := by
  induction a generalizing b with
  | nil =>
      left
      have hcut := cut_of_not_closes hx ht hcloses
      cases b with
      | true => simp [cut, hcut]
      | false => simp [cut, show isEnd '"' = false by decide, hcloses, hcut]
  | cons c a ih =>
      simp only [List.mem_cons, not_or] at ha
      cases b with
      | true => exact ih ha.2 _
      | false =>
          rw [List.cons_append]
          by_cases hend : isEnd c = true
          · right
            simp only [cut, hend, if_true]
            rw [closes_cons (Ne.symm ha.1), closes_append ha.2, closes_cons (by decide)]
            simp
          · simp only [cut, hend]
            exact ih ha.2 _

/-! ## Ends of pieces -/

theorem trimEnd_length_le (s : List Char) :
    (trimEnd s).length ≤ s.length := (List.rdropWhile_prefix isBlank s).length_le

theorem trimEnd_append_blanks {a b : List Char} (hb : ∀ c ∈ b, isBlank c = true) :
    trimEnd (a ++ b) = trimEnd a := by
  induction b using List.reverseRecOn with
  | nil => rw [List.append_nil]
  | append_singleton b c ih =>
      rw [← List.append_assoc]
      unfold trimEnd at ih ⊢
      rw [List.rdropWhile_concat_pos _ _ _ (hb c (by simp)), ih fun d hd => hb d (by simp [hd])]

theorem trimEnd_of_last {a : List Char} {d : Char} (hd : isBlank d = false) :
    trimEnd (a ++ [d]) = a ++ [d] := by
  unfold trimEnd
  rw [List.rdropWhile_concat_neg _ _ _ (by simp [hd])]

theorem length_lt_trimEnd {w y : List Char} {c : Char} (hc : isBlank c = false) :
    w.length < (trimEnd (w ++ c :: y)).length := by
  induction y using List.reverseRecOn with
  | nil => simp [trimEnd_of_last hc]
  | append_singleton y d ih =>
      have hassoc : w ++ c :: (y ++ [d]) = (w ++ c :: y) ++ [d] := by simp
      rw [hassoc]
      cases hd : isBlank d with
      | true => rwa [trimEnd_append_blanks (b := [d]) (by simpa using hd)]
      | false =>
          rw [trimEnd_of_last hd]
          simp

/-- Two beginnings of a text that each stop where a statement ends have the same extent only if they
are equal. -/
theorem eq_of_trimEnd {w t z u : List Char} (hs : w ++ t = z ++ u) (ht : Ends t) (hu : Ends u)
    (hlength : (trimEnd w).length = (trimEnd z).length) : w = z := by
  have hlt {w t z u : List Char} (hs : w ++ t = z ++ u) (ht : Ends t) (hlt : w.length < z.length) :
      (trimEnd w).length < (trimEnd z).length := by
    obtain ⟨r, rfl, rfl⟩ : ∃ r, z = w ++ r ∧ t = r ++ u := by
      rcases List.append_eq_append_iff.mp hs with ⟨r, rfl, rfl⟩ | ⟨r, rfl, rfl⟩
      · exact ⟨r, rfl, rfl⟩
      · simp only [List.length_append] at hlt
        omega
    cases r with
    | nil => simp at hlt
    | cons c y =>
        have := length_lt_trimEnd (w := w) (y := y) (isBlank_of_isEnd (ht c (y ++ u) rfl))
        have := trimEnd_length_le w
        omega
  rcases Nat.lt_trichotomy w.length z.length with h | h | h
  · have := hlt hs ht h
    omega
  · exact (List.append_inj hs h).1
  · have := hlt hs.symm hu h
    omega

end Mlogv32.Parser
