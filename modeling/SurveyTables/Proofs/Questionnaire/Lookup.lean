import SurveyTables.Proofs.Questionnaire.KeptLabels
import SurveyTables.Table.Shown

/-!
# Looking up filler

Labels are shown with the help of look-ups, and filler is looked up as if its empty id were one. The
records of variables have ids, so that nothing is found, but a question may be left without one.

* `Questionnaire.HasIds`, `hasIds_of_records`: all variables and their children have ids;
* `lookup?_eq_none_iff`, `shownPair_filler`: with ids everywhere filler is shown as it is;
* `questionId_eq_empty_iff`, `unnamed`: the variables whose question has no id;
* **`shownPair_filler_gathered`**: by questions filler is shown with the labels of these.
-/

namespace SurveyTables.Questionnaire

variable {q : Questionnaire}

/-! ## Variables with ids -/

theorem mem_of_mem_foldl_add (hq : q.catalog.Valid) {vs : List Variable} {v : Variable}
    (h : v ∈ (vs.foldl add q).toList) : v ∈ q.toList ∨ v ∈ vs := by
  induction vs generalizing q with
  | nil => exact .inl h
  | cons w vs ih =>
    rcases ih (hq.renew w) h with h | h
    · rw [toList, add, hq.toList_renew, List.mem_append, List.mem_singleton] at h
      rcases h with h | rfl
      · exact .inl (List.mem_filter.mp h).1
      · exact .inr List.mem_cons_self
    · exact .inr (List.mem_cons_of_mem _ h)

/-- All variables and their children have ids. -/
def HasIds (q : Questionnaire) : Prop :=
  ∀ v ∈ q.toList, v.HasIds

/-- **The questionnaire of records** has ids throughout, is not gathered and splits ids at `_`. -/
theorem hasIds_of_records {records : List Document} (h : ofRecords records = .ok q) :
    q.HasIds ∧ q.hierarchical = false ∧ q.separator = "_" := by
  obtain ⟨vs, hvs, rfl⟩ := exists_of_map_eq_ok h
  refine ⟨fun v hv => ?_, by rw [ofList, foldl_add_eq], by rw [ofList, foldl_add_eq]⟩
  rcases mem_of_mem_foldl_add Catalog.valid_empty hv with hnone | hv
  · exact absurd hnone List.not_mem_nil
  · exact Variable.hasIds_of_records hvs v hv

/-! ## Look-ups -/

theorem lookup?_eq_none_iff (hq : q.catalog.Valid) {id : String} : q.lookup? id = none ↔
    id ∉ q.ids ∧ ∀ v ∈ q.toList, ∀ c ∈ v.children, c.id ≠ id := by
  rw [lookup?, Option.or_eq_none_iff, find?, hq.find?_eq_none_iff, List.find?_eq_none]
  simp only [beq_iff_eq]
  refine and_congr_right fun _ => ⟨fun h v hv c hc => ?_, fun h c hc => ?_⟩
  · exact h c (List.mem_flatMap.mpr ⟨v, hv, hc⟩)
  · obtain ⟨v, hv, hc⟩ := List.mem_flatMap.mp hc
    exact h v hv c hc

theorem shownPair_filler_of_lookup? (h : q.lookup? "" = none) : q.shownPair filler = filler := by
  have hmarker : ¬ (filler.1 = baseId ∨ filler.1 = totalId) := by decide
  rw [shownPair, if_neg hmarker, show filler.1 = "" from rfl, h]

theorem shownPair_filler (hq : q.catalog.Valid) (h : q.HasIds) : q.shownPair filler = filler := by
  refine shownPair_filler_of_lookup? ((lookup?_eq_none_iff hq).mpr ⟨fun hmem => ?_, fun v hv => ?_⟩)
  · obtain ⟨v, hv, hid⟩ := List.mem_map.mp hmem
    exact (h v hv).id_ne_empty hid
  · exact (h v hv).child_id_ne_empty

/-! ## Questions without an id -/

theorem beforeFirst_eq_nil_iff {separator cs : List Char} :
    beforeFirst separator cs = [] ↔ cs = [] ∨ separator <+: cs := by
  cases cs with
  | nil => exact iff_of_true rfl (.inl rfl)
  | cons c cs =>
    rw [beforeFirst, ← List.isPrefixOf_iff_prefix]
    split <;> simp [*]

theorem questionId_eq_empty_iff {separator : String} {exceptions : List String} {id : String}
    (hseparator : separator ≠ "") (hid : id ≠ "") : questionId separator exceptions id = "" ↔
      id ∉ exceptions ∧ separator.toList <+: id.toList := by
  have hchars : id.toList ≠ [] := mt String.toList_eq_nil_iff.mp hid
  rw [questionId]
  by_cases hexception : id ∈ exceptions
  · rw [if_pos (by simp [hexception])]
    simp [hid, hexception]
  · rw [if_neg (by simp [hexception, hseparator]), ← String.toList_eq_nil_iff, String.toList_ofList,
      beforeFirst_eq_nil_iff]
    simp [hchars, hexception]

/-- The variables whose ids begin with the separator, so that their question has none. -/
def unnamed (q : Questionnaire) (exceptions : List String) : List Variable :=
  q.toList.filter fun v => v.id ∉ exceptions ∧ q.separator.toList <+: v.id.toList

theorem membersOf_empty (h : q.HasIds) (hseparator : q.separator ≠ "") (exceptions : List String) :
    q.membersOf exceptions "" = q.unnamed exceptions := by
  refine List.filter_congr fun v hv => ?_
  rw [Bool.eq_iff_iff, beq_iff_eq, decide_eq_true_iff]
  exact questionId_eq_empty_iff hseparator (h v hv).id_ne_empty

/-- What filler is shown as by a question of the variables that has no id: the label of the first of them,
and the last label that they have for an empty code. -/
def shownFiller (members : List Variable) : Pair :=
  ((members.head?.map Variable.label).getD "",
    (members.reverse.findSome? fun v => v.valueLabel? "").getD "")

theorem mem_of_mem_membersOf {exceptions : List String} {id : String} {v : Variable}
    (h : v ∈ q.membersOf exceptions id) : v ∈ q.toList :=
  (List.mem_filter.mp h).1

/-- The label that a question shows for a code is the last one that its variables have for it. -/
theorem StandsFor.valueLabel?_eq {v first : Variable} {others : List Variable}
    (h : StandsFor v first others) (hv : v.values.Valid)
    (hmembers : ∀ m ∈ first :: others, m.values.Valid) (code : String) :
    v.valueLabel? code = (first :: others).reverse.findSome? fun m => m.valueLabel? code := by
  refine Option.ext fun label => ?_
  rw [Variable.valueLabel?, ← Labels.mem_toList_iff hv, h.mem_values_iff]
  exact (findSome?_reverse_eq_some_iff hmembers).symm

section Gathered

variable (hq : q.Valid) (h : q.HasIds) (hflat : q.hierarchical = false) (hseparator : q.separator ≠ "")
  (exceptions : List String)
include hq h hflat hseparator

theorem lookup?_gathered_eq_none (hnone : q.unnamed exceptions = []) :
    (q.gathered exceptions).lookup? "" = none := by
  refine (lookup?_eq_none_iff (hq.gathered exceptions).index).mpr ⟨fun hmem => ?_, fun v hv c hc => ?_⟩
  · obtain ⟨v, hv, hid⟩ := List.mem_map.mp hmem
    obtain ⟨first, others, hmembers, -⟩ := exists_standsFor_of_mem_gathered hq hflat exceptions hv
    rw [hid, membersOf_empty h hseparator, hnone] at hmembers
    contradiction
  · obtain ⟨first, others, hmembers, hstands⟩ :=
      exists_standsFor_of_mem_gathered hq hflat exceptions hv
    have hlisted : ∀ m ∈ first :: others, m ∈ q.toList := by
      intro m hm
      rw [← hmembers] at hm
      exact mem_of_mem_membersOf hm
    rw [hstands.children_eq] at hc
    rcases List.mem_append.mp hc with hc | hc
    · exact (h first (hlisted first List.mem_cons_self)).child_id_ne_empty c hc
    · exact (h c (hlisted c hc)).id_ne_empty

/-- The question without an id stands for the variables that have none to give. -/
theorem exists_lookup?_gathered {first : Variable} {others : List Variable}
    (hsome : q.unnamed exceptions = first :: others) :
    ∃ v, (q.gathered exceptions).lookup? "" = some v ∧ v.values.Valid ∧ StandsFor v first others := by
  have hvalid := hq.gathered exceptions
  have hmembers := membersOf_empty h hseparator exceptions
  have hmem : "" ∈ (q.gathered exceptions).ids := by
    have hfirst : first ∈ q.membersOf exceptions "" := by
      rw [hmembers, hsome]
      exact List.mem_cons_self
    obtain ⟨hlisted, hid⟩ := List.mem_filter.mp hfirst
    rw [ids_gathered exceptions hflat, List.mem_eraseDups]
    exact List.mem_map.mpr ⟨first.id, List.mem_map_of_mem hlisted, beq_iff_eq.mp hid⟩
  obtain ⟨v, hv, hid⟩ := List.mem_map.mp hmem
  obtain ⟨first', others', hmembers', hstands⟩ :=
    exists_standsFor_of_mem_gathered hq hflat exceptions hv
  rw [hid, hmembers, hsome] at hmembers'
  obtain ⟨rfl, rfl⟩ := List.cons.inj hmembers'
  have hfind := hvalid.index.find?_of_mem hv
  rw [hid] at hfind
  exact ⟨v, by rw [lookup?, find?, hfind, Option.some_or], hvalid.values v hv, hstands⟩

/-- **By questions filler is shown** with the labels of the question that has no id, if there is one. -/
theorem shownPair_filler_gathered :
    (q.gathered exceptions).shownPair filler = shownFiller (q.unnamed exceptions) := by
  cases hunnamed : q.unnamed exceptions with
  | nil => exact shownPair_filler_of_lookup? (lookup?_gathered_eq_none hq h hflat hseparator _ hunnamed)
  | cons first others =>
    obtain ⟨v, hlookup, hvalues, hstands⟩ :=
      exists_lookup?_gathered hq h hflat hseparator exceptions hunnamed
    have hlisted : ∀ m ∈ first :: others, m.values.Valid := by
      intro m hm
      rw [← hunnamed] at hm
      exact hq.values m (List.mem_filter.mp hm).1
    have hlabel : (if v.label.isEmpty then "" else v.label) = first.label := by
      rw [hstands.label_eq]
      split
      · next hempty => exact (String.isEmpty_iff.mp hempty).symm
      · rfl
    have hmarker : ¬ (filler.1 = baseId ∨ filler.1 = totalId) := by decide
    rw [shownPair, if_neg hmarker, show filler.1 = "" from rfl, hlookup]
    exact Prod.ext hlabel (congrArg (Option.getD · "") (hstands.valueLabel?_eq hvalues hlisted ""))

end Gathered

end SurveyTables.Questionnaire
