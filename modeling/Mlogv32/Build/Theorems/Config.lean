import Mlogv32.Build.Config
import Mlogv32.Python.Lemmas.Int
import Mathlib.Data.List.Nodup

/-!
# Configuration strings

`parse_config_str` returns the documented configurations and nothing else, except on three kinds of
strings (`parsesDocumented_iff`).
-/

namespace Mlogv32.Build
open Python

/-! ## Inputs -/

section Inputs
variable {u : Unicode} {inputs inputs' : Inputs}

@[simp] theorem Inputs.set_self (key : String) (v : Int) : inputs.set key v key = some v := by
  simp [Inputs.set]

theorem Inputs.set_of_ne {key k : String} (h : k ≠ key) (v : Int) : inputs.set key v k = inputs k := by
  simp [Inputs.set, h]

theorem foldlM_cons_iff {e : String × List Char} {es : List (String × List Char)} :
    (e :: es).foldlM (readEntry u) inputs = some inputs' ↔
      ∃ v, int u e.2 = some v ∧ es.foldlM (readEntry u) (inputs.set e.1 v) = some inputs' := by
  simp only [List.foldlM_cons, readEntry, Option.bind_eq_bind,
    Option.bind_eq_some_iff, Option.map_eq_some_iff]
  constructor
  · rintro ⟨_, ⟨v, hv, rfl⟩, h⟩
    exact ⟨v, hv, h⟩
  · rintro ⟨v, hv, h⟩
    exact ⟨_, ⟨v, hv, rfl⟩, h⟩

theorem foldlM_isSome {es : List (String × List Char)} (h : ∀ e ∈ es, int u e.2 ≠ none)
    (inputs : Inputs) :
    ∃ inputs', es.foldlM (readEntry u) inputs = some inputs' := by
  induction es generalizing inputs with
  | nil => exact ⟨inputs, rfl⟩
  | cons e es ih =>
      obtain ⟨v, hv⟩ := Option.ne_none_iff_exists'.mp (h e (by simp))
      obtain ⟨inputs', h'⟩ := ih (fun e he => h e (by simp [he])) (inputs.set e.1 v)
      exact ⟨inputs', foldlM_cons_iff.mpr ⟨v, hv, h'⟩⟩

theorem int_ne_none {es : List (String × List Char)}
    (h : es.foldlM (readEntry u) inputs = some inputs') :
    ∀ e ∈ es, int u e.2 ≠ none := by
  induction es generalizing inputs with
  | nil => simp
  | cons e es ih =>
      obtain ⟨v, hv, h⟩ := foldlM_cons_iff.mp h
      intro e' he'
      rcases List.mem_cons.mp he' with rfl | he'
      · simp [hv]
      · exact ih h e' he'

theorem foldlM_of_not_mem {es : List (String × List Char)}
    (h : es.foldlM (readEntry u) inputs = some inputs') {k : String} (hk : k ∉ es.map Prod.fst) :
    inputs' k = inputs k := by
  induction es generalizing inputs with
  | nil =>
      cases h
      rfl
  | cons e es ih =>
      obtain ⟨v, _, h⟩ := foldlM_cons_iff.mp h
      simp only [List.map_cons, List.mem_cons, not_or] at hk
      rw [ih h hk.2, Inputs.set_of_ne hk.1]

/-- A key that is given has a value. -/
theorem foldlM_of_mem {es : List (String × List Char)}
    (h : es.foldlM (readEntry u) inputs = some inputs') {k : String}
    (hk : k ∈ es.map Prod.fst ∨ inputs k ≠ none) : inputs' k ≠ none := by
  induction es generalizing inputs with
  | nil =>
      cases h
      simpa using hk
  | cons e es ih =>
      obtain ⟨v, _, h⟩ := foldlM_cons_iff.mp h
      refine ih h ?_
      by_cases hkey : k = e.1
      · subst hkey
        exact .inr (by simp)
      · simpa [Inputs.set_of_ne hkey, hkey] using hk

/-- With no key given twice, the value is that of the entry. -/
theorem foldlM_eq {es : List (String × List Char)}
    (h : es.foldlM (readEntry u) inputs = some inputs') (hnodup : (es.map Prod.fst).Nodup)
    {e : String × List Char} (he : e ∈ es) : inputs' e.1 = int u e.2 := by
  induction es generalizing inputs with
  | nil => cases he
  | cons e' es ih =>
      obtain ⟨v, hv, h⟩ := foldlM_cons_iff.mp h
      simp only [List.map_cons, List.nodup_cons] at hnodup
      rcases List.mem_cons.mp he with rfl | he
      · rw [foldlM_of_not_mem h hnodup.1, Inputs.set_self, hv]
      · exact ih h hnodup.2 he

end Inputs

/-! ## Items -/

theorem ConfigKey.name_injective {k k' : ConfigKey} (h : k.name = k'.name) : k = k' := by
  revert h
  cases k <;> cases k' <;> decide

theorem ConfigKey.map_name_places : places.map name = defaultKeys := rfl

theorem ConfigKey.not_mem_name (k : ConfigKey) {c : Char} (hc : c = ',' ∨ c = '=') :
    c ∉ k.name.toList := by
  rcases hc with rfl | rfl <;> cases k <;> decide

section Items
variable (i : ConfigItem)

theorem ConfigItem.not_mem_literal {c : Char} (hc : c = ',' ∨ c = '=') : c ∉ i.literal := by
  rcases hc with rfl | rfl <;> exact i.signed.not_mem (by decide) (by decide)

theorem ConfigItem.comma_not_mem_text : ',' ∉ i.text := by
  unfold ConfigItem.text
  split_ifs
  · simp [i.key.not_mem_name (c := ',') (.inl rfl), i.not_mem_literal (c := ',') (.inl rfl)]
  · exact i.not_mem_literal (.inl rfl)

theorem splitItem_named {name : String} (hname : '=' ∉ name.toList) (l : List Char)
    (defaultKey : String) :
    splitItem (name.toList ++ '=' :: l) defaultKey = (name, l) := by
  have hall : ∀ c ∈ name.toList, decide (c ≠ '=') = true := by
    intro c hc
    simp only [decide_eq_true_eq]
    rintro rfl
    exact hname hc
  unfold splitItem
  rw [if_pos (by simp), List.takeWhile_append_of_pos hall, List.dropWhile_append_of_pos hall]
  simp

theorem splitItem_text {place : ConfigKey} (h : i.named = false → i.key = place) :
    splitItem i.text place.name = (i.key.name, i.literal) := by
  unfold ConfigItem.text
  split_ifs with hnamed
  · exact splitItem_named (i.key.not_mem_name (.inr rfl)) i.literal place.name
  · simp only [Bool.not_eq_true] at hnamed
    simp [splitItem, i.not_mem_literal (c := '=') (.inr rfl), h hnamed]

end Items

/-! ## Documented configurations -/

section Documented
variable {u : Unicode} {config : String} {items : List ConfigItem}

theorem Documented.splitOn (h : Documented config items) :
    config.toList.splitOn ',' = items.map ConfigItem.text := by
  rw [h.text]
  refine List.splitOn_intercalate ',' ?_ ?_
  · simp only [List.mem_map]
    rintro l ⟨i, _, rfl⟩
    exact i.comma_not_mem_text
  · have := h.count.1
    rintro heq
    simp only [List.map_eq_nil_iff] at heq
    simp [heq] at this

theorem zipWith_splitItem {items : List ConfigItem} {places : List ConfigKey}
    (hlength : items.length ≤ places.length)
    (h : ∀ p ∈ items.zip places, p.1.named = false → p.1.key = p.2) :
    List.zipWith splitItem (items.map ConfigItem.text) (places.map ConfigKey.name) =
      items.map fun i => (i.key.name, i.literal) := by
  induction items generalizing places with
  | nil => rfl
  | cons i items ih =>
      cases places with
      | nil => simp at hlength
      | cons place places =>
          simp only [List.zip_cons_cons, List.mem_cons, forall_eq_or_imp] at h
          simp only [List.map_cons, List.zipWith_cons_cons, splitItem_text i h.1]
          rw [ih (by simpa using hlength) h.2]

theorem Documented.entries (h : Documented config items) :
    entries config = items.map fun i => (i.key.name, i.literal) := by
  unfold Build.entries
  rw [h.splitOn, ← ConfigKey.map_name_places]
  exact zipWith_splitItem h.count.2 h.places

theorem Documented.keys (h : Documented config items) :
    (Build.entries config).map Prod.fst = (items.map ConfigItem.key).map ConfigKey.name := by
  simp [h.entries]

theorem Documented.keys_nodup (h : Documented config items) :
    ((Build.entries config).map Prod.fst).Nodup := by
  rw [h.keys]
  exact h.once.map fun _ _ => ConfigKey.name_injective

theorem given_eq_none {key : ConfigKey} (h : key ∉ items.map ConfigItem.key) :
    given items key = none := by
  unfold given
  rw [Option.map_eq_none_iff, List.find?_eq_none]
  intro i hi
  simp only [decide_eq_true_eq]
  rintro rfl
  exact h (List.mem_map_of_mem hi)

theorem Documented.inputs (h : Documented config items)
    (hlimit : ∀ i ∈ items, WithinLimit i.base i.digits) {inputs : Inputs}
    (hread : (Build.entries config).foldlM (readEntry u) (fun _ => none) = some inputs)
    (key : ConfigKey) : inputs key.name = given items key := by
  by_cases hkey : key ∈ items.map ConfigItem.key
  · obtain ⟨i, hi⟩ : ∃ i, items.find? (fun i => i.key = key) = some i := by
      obtain ⟨i, hi, rfl⟩ := List.mem_map.mp hkey
      exact Option.isSome_iff_exists.mp (List.find?_isSome.mpr ⟨i, hi, by simp⟩)
    have hmem := List.mem_of_find?_eq_some hi
    have hikey : i.key = key := by simpa using List.find?_some hi
    have hentry : (i.key.name, i.literal) ∈ Build.entries config := by
      rw [h.entries]
      exact List.mem_map_of_mem hmem
    have := foldlM_eq hread h.keys_nodup hentry
    simp only [int_literal i.signed, hlimit i hmem, if_true] at this
    rw [← hikey, this, given, hikey, hi]
    rfl
  · rw [given_eq_none hkey, foldlM_of_not_mem hread]
    rw [h.keys]
    simp only [List.mem_map, not_exists, not_and]
    rintro k hk heq
    exact hkey (List.mem_map.mpr (ConfigKey.name_injective heq ▸ hk))

theorem Documented.parse (h : Documented config items) (hcount : items.length ≤ 4)
    (hlimit : ∀ i ∈ items, WithinLimit i.base i.digits) :
    parseConfigStr u config = some (documentedArgs items) := by
  have hlength : (config.toList.splitOn ',').length = items.length := by rw [h.splitOn, List.length_map]
  have hint : ∀ e ∈ Build.entries config, int u e.2 ≠ none := by
    rw [h.entries]
    simp only [List.mem_map]
    rintro e ⟨i, hi, rfl⟩
    simp [int_literal i.signed, hlimit i hi]
  obtain ⟨inputs, hread⟩ := foldlM_isSome hint fun _ => none
  have hinputs := h.inputs hlimit hread
  have hpresent {key : ConfigKey} (hkey : key ∈ items.map ConfigItem.key) : ∃ v,
      given items key = some v := by
    have : inputs key.name ≠ none := by
      refine foldlM_of_mem hread (.inl ?_)
      rw [h.keys]
      exact List.mem_map_of_mem hkey
    rw [hinputs] at this
    exact Option.ne_none_iff_exists'.mp this
  obtain ⟨rom, hrom⟩ := hpresent h.rom
  obtain ⟨ram, hram⟩ := hpresent h.ram
  have hvalue (name : String) (key : ConfigKey) (hname : key.name = name) :
      inputs name = given items key :=
    hname ▸ hinputs key
  unfold parseConfigStr
  rw [if_pos ⟨hlength ▸ h.count.1, hlength ▸ hcount⟩, hread]
  simp only [Option.bind_eq_bind, Option.bind_some, hvalue "rom" .rom rfl, hvalue "ram" .ram rfl,
    hvalue "icache" .icache rfl, hvalue "width" .width rfl, hvalue "x_offset" .xOffset rfl,
    hvalue "drom" .drom rfl, hrom, hram, documentedArgs, Option.getD_some]
  rfl

theorem Documented.parse_eq_none (h : Documented config items)
    (hbad : 4 < items.length ∨ ∃ i ∈ items, ¬WithinLimit i.base i.digits) :
    parseConfigStr u config = none := by
  have hlength : (config.toList.splitOn ',').length = items.length := by rw [h.splitOn, List.length_map]
  unfold parseConfigStr
  split_ifs with hcount
  · obtain ⟨i, hi, hlimit⟩ := hbad.resolve_left (by omega)
    cases hread : (Build.entries config).foldlM (readEntry u) fun _ => none with
    | none => rfl
    | some inputs =>
        have hentry : (i.key.name, i.literal) ∈ Build.entries config := by
          rw [h.entries]
          exact List.mem_map_of_mem hi
        have := int_ne_none hread _ hentry
        simp [int_literal i.signed, hlimit] at this
  · rfl

end Documented

/-! ## What the code accepts -/

section Accepted
variable {u : Unicode} {config : String} {a : ConfigArgs}

theorem parse_some (h : parseConfigStr u config = some a) :
    (2 ≤ (config.toList.splitOn ',').length ∧ (config.toList.splitOn ',').length ≤ 4) ∧
      (∀ e ∈ entries config, int u e.2 ≠ none) ∧ "rom" ∈ (entries config).map Prod.fst ∧
      "ram" ∈ (entries config).map Prod.fst := by
  unfold parseConfigStr at h
  split_ifs at h with hcount
  obtain ⟨inputs, hread, h⟩ := Option.bind_eq_some_iff.mp h
  obtain ⟨rom, hrom, h⟩ := Option.bind_eq_some_iff.mp h
  obtain ⟨ram, hram, _⟩ := Option.bind_eq_some_iff.mp h
  have hmem {key : String} {v : Int} (hv : inputs key = some v) :
      key ∈ (entries config).map Prod.fst := by
    by_contra hkey
    rw [foldlM_of_not_mem hread hkey] at hv
    cases hv
  exact ⟨hcount, int_ne_none hread, hmem hrom, hmem hram⟩

theorem parse_isSome
    (hcount : 2 ≤ (config.toList.splitOn ',').length ∧ (config.toList.splitOn ',').length ≤ 4)
    (hint : ∀ e ∈ entries config, int u e.2 ≠ none) (hrom : "rom" ∈ (entries config).map Prod.fst)
    (hram : "ram" ∈ (entries config).map Prod.fst) : ∃ a, parseConfigStr u config = some a := by
  obtain ⟨inputs, hread⟩ := foldlM_isSome hint fun _ => none
  obtain ⟨rom, hrom⟩ := Option.ne_none_iff_exists'.mp (foldlM_of_mem hread (.inl hrom))
  obtain ⟨ram, hram⟩ := Option.ne_none_iff_exists'.mp (foldlM_of_mem hread (.inl hram))
  unfold parseConfigStr
  rw [if_pos hcount, hread]
  simp only [Option.bind_eq_bind, Option.bind_some, hrom, hram]
  exact ⟨_, rfl⟩

theorem mem_takeWhile_append {item : List Char} (h : '=' ∈ item) :
    item = item.takeWhile (· ≠ '=') ++ '=' :: (item.dropWhile (· ≠ '=')).drop 1 := by
  induction item with
  | nil => cases h
  | cons c item ih =>
      by_cases hc : c = '='
      · simp [hc]
      · have hmem : '=' ∈ item := by simpa [Ne.symm hc] using h
        simpa [hc] using ih hmem

/-- Known keys and literals make an item of the format. -/
theorem exists_item {item : List Char} {place key : ConfigKey}
    (hkey : key.name = (splitItem item place.name).1) {base : Nat} {ds : List Nat} {v : Int}
    (hl : SignedLiteral base ds (splitItem item place.name).2 v) :
    ∃ i : ConfigItem, i.text = item ∧ (i.named = false → i.key = place) := by
  by_cases hnamed : '=' ∈ item
  · simp only [splitItem, if_pos hnamed] at hkey hl
    refine ⟨⟨key, true, _, base, ds, v, hl⟩, ?_, fun h => by cases h⟩
    simp only [ConfigItem.text, if_true, hkey, String.toList_ofList]
    exact (mem_takeWhile_append hnamed).symm
  · simp only [splitItem, if_neg hnamed] at hkey hl
    exact ⟨⟨place, false, item, base, ds, v, hl⟩, rfl, fun _ => rfl⟩

theorem exists_items {raw : List (List Char)} {places : List ConfigKey}
    (hlength : raw.length ≤ places.length)
    (hknown : ∀ e ∈ List.zipWith splitItem raw (places.map ConfigKey.name),
      ∃ key : ConfigKey, key.name = e.1)
    (hliteral : ∀ e ∈ List.zipWith splitItem raw (places.map ConfigKey.name), ∃ base ds v,
      SignedLiteral base ds e.2 v) :
    ∃ items : List ConfigItem, items.map ConfigItem.text = raw ∧
      ∀ p ∈ items.zip places, p.1.named = false → p.1.key = p.2 := by
  induction raw generalizing places with
  | nil => exact ⟨[], rfl, by simp⟩
  | cons item raw ih =>
      cases places with
      | nil => simp at hlength
      | cons place places =>
          simp only [List.map_cons, List.zipWith_cons_cons, List.mem_cons,
            forall_eq_or_imp] at hknown hliteral
          obtain ⟨⟨key, hkey⟩, hknown⟩ := hknown
          obtain ⟨⟨base, ds, v, hl⟩, hliteral⟩ := hliteral
          obtain ⟨i, rfl, hplace⟩ := exists_item hkey hl
          obtain ⟨items, rfl, hplaces⟩ := ih (by simpa using hlength) hknown hliteral
          refine ⟨i :: items, rfl, ?_⟩
          simp only [List.zip_cons_cons, List.mem_cons, forall_eq_or_imp]
          exact ⟨hplace, hplaces⟩

theorem parse_documented (h : parseConfigStr u config = some a) (hloose : ¬Loose u config) :
    ∃ items, Documented config items ∧ a = documentedArgs items := by
  obtain ⟨hcount, hint, hrom, hram⟩ := parse_some h
  have hstrict := fun hl => hloose ⟨hcount, hint, hrom, hram, hl⟩
  simp only [imp_false, not_or, not_exists, not_and, not_not, not_forall] at hstrict
  obtain ⟨hknown, hnodup, hliteral⟩ := hstrict
  have hlength : (config.toList.splitOn ',').length ≤ ConfigKey.places.length := by
    have : ConfigKey.places.length = 6 := rfl
    omega
  obtain ⟨items, hraw, hplaces⟩ := exists_items hlength hknown hliteral
  have hitems : items.length = (config.toList.splitOn ',').length := by rw [← hraw, List.length_map]
  have hentries : entries config = items.map fun i => (i.key.name, i.literal) := by
    unfold entries
    rw [← hraw, ← ConfigKey.map_name_places]
    exact zipWith_splitItem (hitems ▸ hlength) hplaces
  have hkeys : (entries config).map Prod.fst = (items.map ConfigItem.key).map ConfigKey.name := by
    simp [hentries]
  rw [hkeys] at hnodup hrom hram
  have hmem {key : ConfigKey} (hk : key.name ∈ (items.map ConfigItem.key).map ConfigKey.name) :
      key ∈ items.map ConfigItem.key := by
    obtain ⟨k, hk, heq⟩ := List.mem_map.mp hk
    exact ConfigKey.name_injective heq ▸ hk
  have hdocumented : Documented config items := {
    text := by rw [hraw, List.intercalate_splitOn]
    count := by omega
    places := hplaces
    once := hnodup.of_map _
    rom := hmem hrom
    ram := hmem hram }
  have hlimit : ∀ i ∈ items, WithinLimit i.base i.digits := by
    intro i hi
    have hentry : (i.key.name, i.literal) ∈ entries config := by
      rw [hentries]
      exact List.mem_map_of_mem hi
    simpa [int_literal i.signed] using hint _ hentry
  refine ⟨items, hdocumented, ?_⟩
  rw [hdocumented.parse (by omega) hlimit, Option.some.injEq] at h
  exact h.symm

end Accepted

/-! ## The strings that differ -/

/-- The code meets the documentation except on documented strings of five or six items or with an
integer over the limit of `int`, and on loose strings. -/
theorem parsesDocumented_iff (u : Unicode) (config : String) :
    ParsesDocumented u config ↔ ¬Longer config ∧ ¬OverLimit config ∧ ¬Loose u config := by
  constructor
  · intro h
    refine ⟨?_, ?_, ?_⟩
    · rintro ⟨items, hdocumented, hlonger⟩
      have hparse := (h _).mpr ⟨items, hdocumented, rfl⟩
      rw [hdocumented.parse_eq_none (.inl hlonger)] at hparse
      cases hparse
    · rintro ⟨items, hdocumented, hlimit⟩
      have hparse := (h _).mpr ⟨items, hdocumented, rfl⟩
      rw [hdocumented.parse_eq_none (.inr hlimit)] at hparse
      cases hparse
    · rintro ⟨hcount, hint, hrom, hram, hloose⟩
      obtain ⟨a, hparse⟩ := parse_isSome hcount hint hrom hram
      obtain ⟨items, hdocumented, _⟩ := (h a).mp hparse
      rcases hloose with ⟨e, he, hunknown⟩ | hnodup | ⟨e, he, hliteral⟩
      · rw [hdocumented.entries] at he
        obtain ⟨i, _, rfl⟩ := List.mem_map.mp he
        exact hunknown i.key rfl
      · exact hnodup hdocumented.keys_nodup
      · rw [hdocumented.entries] at he
        obtain ⟨i, _, rfl⟩ := List.mem_map.mp he
        exact hliteral _ _ _ i.signed
  · rintro ⟨hlonger, hlimit, hloose⟩ a
    constructor
    · intro h
      exact parse_documented h hloose
    · rintro ⟨items, hdocumented, rfl⟩
      refine hdocumented.parse ?_ ?_
      · by_contra hcount
        exact hlonger ⟨items, hdocumented, by omega⟩
      · intro i hi
        by_contra hi'
        exact hlimit ⟨items, hdocumented, i, hi, hi'⟩

/-- `1,1,1,32,-9`, which the documentation allows. No Unicode table makes a difference. -/
theorem not_parsesDocumented : ¬∃ u, ParsesDocumented u "1,1,1,32,-9" := by
  rintro ⟨u, h⟩
  have hone : SignedLiteral 10 [1] ['1'] 1 :=
    .unsigned (.decimal (by decide) (.last (by decide) (by decide)))
  have hwidth : SignedLiteral 10 [3, 2] ['3', '2'] 32 :=
    .unsigned (.decimal (by decide) (.digit (by decide) (by decide) (.last (by decide) (by decide))))
  have hoffset : SignedLiteral 10 [9] ['-', '9'] (-9) :=
    .minus (.decimal (by decide) (.last (by decide) (by decide)))
  have hparse := (h _).mpr ⟨[⟨.rom, false, _, _, _, _, hone⟩, ⟨.ram, false, _, _, _, _, hone⟩,
    ⟨.icache, false, _, _, _, _, hone⟩, ⟨.width, false, _, _, _, _, hwidth⟩,
    ⟨.xOffset, false, _, _, _, _, hoffset⟩],
    { text := rfl, count := by simp, places := by simp [ConfigKey.places],
      once := by simp, rom := by simp,
      ram := by simp }, rfl⟩
  have hnone : parseConfigStr u "1,1,1,32,-9" = none := rfl
  rw [hnone] at hparse
  cases hparse

end Mlogv32.Build
