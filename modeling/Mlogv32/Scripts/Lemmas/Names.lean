import Mathlib
import Mlogv32.Parser.Lexer
import Mlogv32.Scripts.RamProc

/-!
# Variable names

The names of a format are pairwise different, and each of them is one word of an mlog text.
-/

namespace Mlogv32.Scripts
open Mlogv32.Parser

/-! ## Digits -/

theorem digitChar_inj : ∀ x < 16, ∀ y < 16, Nat.digitChar x = Nat.digitChar y → x = y := by decide

theorem mem_toDigits {b : Nat} (hb : 1 < b) {c : Char} {n : Nat} (hc : c ∈ Nat.toDigits b n) :
    ∃ d < b, c = Nat.digitChar d := by
  induction n using Nat.strong_induction_on with
  | _ n ih =>
      rw [Nat.toDigits_eq_if hb] at hc
      split at hc
      · exact ⟨n, ‹_›, List.mem_singleton.mp hc⟩
      · rcases List.mem_append.mp hc with hc | hc
        · exact ih _ (Nat.div_lt_self (by omega) hb) hc
        · exact ⟨n % b, Nat.mod_lt _ (by omega), List.mem_singleton.mp hc⟩

theorem toDigits_inj {b : Nat} (hb : 1 < b) (hb' : b ≤ 16) {m n : Nat}
    (h : Nat.toDigits b m = Nat.toDigits b n) : m = n := by
  induction m using Nat.strong_induction_on generalizing n with
  | _ m ih =>
      have hne (k : Nat) : Nat.toDigits b k ≠ [] := Nat.toDigits_ne_nil
      rw [Nat.toDigits_eq_if hb, Nat.toDigits_eq_if hb (n := n)] at h
      split at h <;> split at h
      · exact digitChar_inj m (by omega) n (by omega) (List.singleton_inj.mp h)
      · exact absurd (List.append_eq_singleton_iff.mp h.symm) (by simp [hne])
      · exact absurd (List.append_eq_singleton_iff.mp h) (by simp [hne])
      · obtain ⟨hdiv, hmod⟩ := List.append_inj' h rfl
        have hlow : m % b = n % b :=
          digitChar_inj _ (by have := Nat.mod_lt m (by omega : b > 0); omega) _
            (by have := Nat.mod_lt n (by omega : b > 0); omega) (List.singleton_inj.mp hmod)
        have hhigh := ih (m / b) (Nat.div_lt_self (by omega) hb) hdiv
        rw [← Nat.div_add_mod m b, ← Nat.div_add_mod n b, hhigh, hlow]

/-! ## Words -/

/-- A word of an mlog text that is not a string and holds no quote. -/
def isNameChar (c : Char) : Bool := isTokenChar c && c ≠ '"'

structure IsName (name : String) : Prop where
  ne_nil : name.toList ≠ []
  chars : ∀ c ∈ name.toList, isNameChar c = true

theorem isNameChar_digitChar : ∀ d < 16, isNameChar (Nat.digitChar d) = true := by decide

theorem isNameChar_of_mem : ∀ c ∈ variableNameChars, isNameChar c = true := by
  have hall : ∀ k ∈ List.range' 33 94, Char.ofNat k ∉ "\"#'0123456789;@\\".toList →
      isNameChar (Char.ofNat k) = true := by
    decide +kernel
  intro c hc
  obtain ⟨hc, hnot⟩ := List.mem_filter.mp hc
  obtain ⟨k, hk, rfl⟩ := List.mem_map.mp hc
  exact hall k hk (of_decide_eq_true hnot)

theorem variableNameChars_nodup : variableNameChars.Nodup := by decide +kernel

theorem isName_pair {chars : List Char} (h : ∀ c ∈ chars, isNameChar c = true) {name : String}
    (hname : name ∈ pairs chars) :
    IsName name := by
  simp only [pairs, List.mem_flatMap, List.mem_map] at hname
  obtain ⟨c1, h1, c2, h2, rfl⟩ := hname
  exact ⟨by simp, by simp [h c1 h1, h c2 h2]⟩

theorem pairs_nodup {chars : List Char} (h : chars.Nodup) : (pairs chars).Nodup := by
  have heq : pairs chars = (chars ×ˢ chars).map fun p => String.ofList [p.1, p.2] := by
    simp [pairs, SProd.sprod, List.product, List.map_flatMap, Function.comp_def]
  rw [heq]
  refine (h.product h).map fun p q hpq => ?_
  have hlist := congrArg String.toList hpq
  simpa [Prod.ext_iff] using hlist

theorem pairs_length (chars : List Char) : (pairs chars).length = chars.length * chars.length := by
  simp [pairs, List.length_flatMap]

theorem isName_iterVariables {fmt : VariableFormat} {i : Nat} {name : String}
    (h : fmt.iterVariables i = some name) :
    IsName name := by
  cases fmt with
  | mlogv32 =>
      exact isName_pair (fun c hc => isNameChar_of_mem c (List.mem_of_mem_take hc))
        (List.mem_of_getElem? h)
  | min => exact isName_pair isNameChar_of_mem (List.mem_of_getElem? h)
  | dec =>
      cases h
      refine ⟨by simp, fun c hc => ?_⟩
      rw [String.toList_append] at hc
      rcases List.mem_append.mp hc with hc | hc
      · rw [List.mem_singleton.mp hc]
        decide
      · rw [Nat.toString_eq_ofList_toDigits, String.toList_ofList] at hc
        obtain ⟨d, hd, rfl⟩ := mem_toDigits (by decide) hc
        exact isNameChar_digitChar d (by omega)
  | hex =>
      cases h
      have hdigits : ∀ c ∈ (hexString i).toList, isNameChar c = true := by
        intro c hc
        rw [hexString, String.toList_ofList] at hc
        obtain ⟨d, hd, rfl⟩ := mem_toDigits (by decide) hc
        exact isNameChar_digitChar d hd
      split_ifs
      · refine ⟨by simp, fun c hc => ?_⟩
        rw [String.toList_append] at hc
        rcases List.mem_append.mp hc with hc | hc
        · rw [List.mem_singleton.mp hc]
          decide
        · exact hdigits c hc
      · refine ⟨?_, hdigits⟩
        rw [hexString, String.toList_ofList]
        exact Nat.toDigits_ne_nil

/-- No name is yielded twice. -/
theorem iterVariables_inj {fmt : VariableFormat} {i j : Nat} {name : String}
    (hi : fmt.iterVariables i = some name) (hj : fmt.iterVariables j = some name) : i = j := by
  have hpairs {chars : List Char} (h : chars.Nodup) (hi : (pairs chars)[i]? = some name)
      (hj : (pairs chars)[j]? = some name) :
      i = j := by
    obtain ⟨hi', -⟩ := List.getElem?_eq_some_iff.mp hi
    exact (List.getElem?_inj hi' (pairs_nodup h)).mp (hi.trans hj.symm)
  cases fmt with
  | mlogv32 => exact hpairs (variableNameChars_nodup.sublist (List.take_sublist _ _)) hi hj
  | min => exact hpairs variableNameChars_nodup hi hj
  | dec =>
      have heq := Option.some.inj (hi.trans hj.symm)
      have hlist := congrArg String.toList heq
      rw [String.toList_append, String.toList_append] at hlist
      have hdigits := List.append_cancel_left hlist
      rw [Nat.toString_eq_ofList_toDigits, Nat.toString_eq_ofList_toDigits, String.toList_ofList,
        String.toList_ofList] at hdigits
      exact toDigits_inj (by decide) (by decide) hdigits
  | hex =>
      have hunderscore (k : Nat) : '_' ∉ (hexString k).toList := by
        rw [hexString, String.toList_ofList]
        intro hc
        obtain ⟨d, hd, hchar⟩ := mem_toDigits (by decide) hc
        revert hchar
        revert d
        decide
      have hinj (h : (hexString i).toList = (hexString j).toList) : i = j := by
        rw [hexString, hexString, String.toList_ofList, String.toList_ofList] at h
        exact toDigits_inj (by decide) (by decide) h
      have heq := congrArg String.toList (Option.some.inj (hi.trans hj.symm))
      split_ifs at heq
      · rw [String.toList_append, String.toList_append] at heq
        exact hinj (List.append_cancel_left heq)
      · rw [String.toList_append] at heq
        exact absurd (heq ▸ List.mem_append_left _ (by decide)) (hunderscore j)
      · rw [String.toList_append] at heq
        exact absurd (heq ▸ List.mem_append_left _ (by decide)) (hunderscore i)
      · exact hinj heq

/-! ## The number of names -/

/-- The format has at least `n` names. -/
def VariableFormat.Generates (fmt : VariableFormat) (n : Nat) : Prop :=
  ∀ i < n, (fmt.iterVariables i).isSome

theorem generates_pairs (chars : List Char) (n : Nat) :
    (∀ i < n, (pairs chars)[i]?.isSome) ↔ n ≤ chars.length * chars.length := by
  rw [← pairs_length]
  simp only [isSome_getElem?]
  exact ⟨fun h => Nat.not_lt.mp fun hlt => absurd (h _ hlt) (lt_irrefl _), fun h i hi => by omega⟩

theorem min_generates (n : Nat) :
    VariableFormat.min.Generates n ↔ n ≤ 6084 := generates_pairs variableNameChars n

theorem dec_generates (n : Nat) : VariableFormat.dec.Generates n := fun _ _ => rfl

end Mlogv32.Scripts
