import SurveyTables.Proofs.Catalog.Updates
import SurveyTables.Variable.Labels

/-!
# Value labels that can come up

However value labels are made, their index is right. Labels merged into others keep the codes that are
there in their places and win where both have a code.

* `Labels.Reachable`, **`Reachable.valid`**: the labels that can be made, and their index;
* `eq_iff_label?`: labels are equal just if their codes and the label of each are;
* `codes_merge`, `label?_merge`: the codes and labels of two merged;
* **`codes_foldl_merge`**, **`label?_foldl_merge`**: those of many merged one after the other.
-/

namespace SurveyTables.Labels

/-- The value labels that can be made. -/
inductive Reachable : Labels → Prop where
  | empty : Reachable .empty
  | ofPairs (pairs : List (String × String)) : Reachable (ofPairs pairs)
  | ofDocument {d : Document} {l : Labels} : ofDocument? d = some l → Reachable l
  | insert {l : Labels} (code label : String) : Reachable l → Reachable (l.insert code label)
  | merge {l m : Labels} : Reachable l → Reachable m → Reachable (l.merge m)

variable {l m : Labels}

theorem valid_ofPairs (pairs : List (String × String)) : (ofPairs pairs).Valid :=
  Catalog.valid_empty.foldl_put pairs

theorem valid_merge (hl : l.Valid) (m : Labels) : (l.merge m).Valid :=
  hl.foldl_put m.toList

/-- **All value labels that can come up are indexed.** -/
theorem Reachable.valid (h : l.Reachable) : l.Valid := by
  induction h with
  | empty => exact Catalog.valid_empty
  | ofPairs pairs => exact valid_ofPairs pairs
  | ofDocument h =>
    obtain ⟨pairs, -, rfl⟩ := Option.map_eq_some_iff.mp h
    exact valid_ofPairs pairs
  | insert code label _ ih => exact ih.put (code, label)
  | merge _ _ ih _ => exact valid_merge ih _

/-! ## Look-ups -/

theorem label?_of_mem (hl : l.Valid) {pair : String × String} (h : pair ∈ l.toList) :
    l.label? pair.1 = some pair.2 := by
  rw [label?, hl.find?_of_mem h, Option.map_some]

theorem label?_isSome_iff (hl : l.Valid) {code : String} :
    (l.label? code).isSome = true ↔ code ∈ l.codes := by
  rw [label?, Option.isSome_map]
  exact hl.find?_isSome_iff

theorem label?_eq_none_iff (hl : l.Valid) {code : String} : l.label? code = none ↔ code ∉ l.codes := by
  rw [← label?_isSome_iff hl, Option.not_isSome_iff_eq_none]

theorem mem_toList_iff (hl : l.Valid) {code label : String} :
    (code, label) ∈ l.toList ↔ l.label? code = some label := by
  refine ⟨fun h => label?_of_mem hl h, fun h => ?_⟩
  obtain ⟨pair, hpair, rfl⟩ := Option.map_eq_some_iff.mp h
  obtain rfl : pair.1 = code := hl.key_of_find? hpair
  exact hl.mem_of_find? hpair

theorem find?_eq_map_label? (hl : l.Valid) (code : String) :
    l.find? code = (l.label? code).map (Prod.mk code) := by
  rw [label?, Option.map_map]
  cases hfind : l.find? code with
  | none => rfl
  | some pair =>
    obtain rfl : pair.1 = code := hl.key_of_find? hfind
    rfl

theorem toList_eq_filterMap (hl : l.Valid) :
    l.toList = l.codes.filterMap fun code => (l.label? code).map (Prod.mk code) := by
  rw [hl.toList_eq_filterMap]
  exact List.filterMap_congr fun code _ => find?_eq_map_label? hl code

theorem eq_iff_label? (hl : l.Valid) (hm : m.Valid) :
    l = m ↔ l.codes = m.codes ∧ ∀ code, l.label? code = m.label? code := by
  refine ⟨fun h => h ▸ ⟨rfl, fun _ => rfl⟩, fun ⟨hcodes, hlabel⟩ => ?_⟩
  refine (hl.eq_iff_find? hm).mpr ⟨hcodes, fun code => ?_⟩
  rw [find?_eq_map_label? hl, find?_eq_map_label? hm, hlabel]

/-! ## Merging -/

theorem codes_merge (hl : l.Valid) (m : Labels) :
    (l.merge m).codes = (l.codes ++ m.codes).eraseDups :=
  hl.keys_foldl_put m.toList

theorem find?_reverse (hm : m.Valid) (code : String) :
    m.toList.reverse.find? (Prod.fst · == code) = m.find? code := by
  cases hfind : m.find? code with
  | none =>
    rw [hm.find?_eq, List.find?_eq_none] at hfind
    rw [List.find?_eq_none]
    exact fun pair hpair => hfind pair (List.mem_reverse.mp hpair)
  | some pair =>
    have hsome : (m.toList.reverse.find? (Prod.fst · == code)).isSome = true := by
      rw [List.find?_isSome]
      exact ⟨pair, List.mem_reverse.mpr (hm.mem_of_find? hfind),
        beq_iff_eq.mpr (hm.key_of_find? hfind)⟩
    obtain ⟨pair', hpair'⟩ := Option.isSome_iff_exists.mp hsome
    have hmem := List.mem_reverse.mp (List.mem_of_find?_eq_some hpair')
    have hcode := List.find?_some hpair'
    rw [beq_iff_eq] at hcode
    rw [hpair', ← hfind, ← hm.find?_of_mem hmem, hcode]

theorem label?_merge (hl : l.Valid) (hm : m.Valid) (code : String) :
    (l.merge m).label? code = (m.label? code).or (l.label? code) := by
  have hfind : (l.merge m).find? code =
      (m.toList.reverse.find? (Prod.fst · == code)).or (l.find? code) :=
    hl.find?_foldl_put m.toList code
  rw [label?, hfind, find?_reverse hm, Option.map_or]
  rfl

theorem foldl_merge_eq (l : Labels) (ms : List Labels) :
    ms.foldl merge l = (ms.flatMap Catalog.toList).foldl Catalog.put l := by
  rw [List.foldl_flatMap]
  rfl

theorem valid_foldl_merge (hl : l.Valid) (ms : List Labels) : (ms.foldl merge l).Valid := by
  rw [foldl_merge_eq]
  exact hl.foldl_put _

/-- **The codes of labels merged one after the other** are those of all, each where it is seen first. -/
theorem codes_foldl_merge (hl : l.Valid) (ms : List Labels) :
    (ms.foldl merge l).codes = (l.codes ++ ms.flatMap codes).eraseDups := by
  have hcodes : (ms.flatMap Catalog.toList).map Prod.fst = ms.flatMap codes := List.map_flatMap
  rw [codes, foldl_merge_eq, hl.keys_foldl_put, hcodes]
  rfl

/-- **The label of a code in labels merged one after the other** is that of the last that have one. -/
theorem label?_foldl_merge (hl : l.Valid) {ms : List Labels} (hms : ∀ m ∈ ms, m.Valid)
    (code : String) : (ms.foldl merge l).label? code =
      (ms.reverse.findSome? (·.label? code)).or (l.label? code) := by
  induction ms using List.reverseRecOn with
  | nil => rfl
  | append_singleton ms m ih =>
    have hms' : ∀ m ∈ ms, m.Valid := fun m' hm' => hms m' (List.mem_append_left _ hm')
    have hm : m.Valid := hms m (List.mem_append_right _ (List.mem_singleton_self m))
    rw [List.foldl_append, List.foldl_cons, List.foldl_nil,
      label?_merge (valid_foldl_merge hl ms) hm, ih hms', List.reverse_append,
      List.reverse_singleton, List.singleton_append, List.findSome?_cons, ← Option.or_assoc]
    cases m.label? code <;> rfl

end SurveyTables.Labels
