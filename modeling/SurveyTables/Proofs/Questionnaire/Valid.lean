import SurveyTables.Proofs.Questionnaire.Questions
import SurveyTables.Proofs.Variable.Record

/-!
# Questionnaires that can come up

However a questionnaire is made, its index is right, and so are those of the value labels of its
variables.

* `Questionnaire.Reachable`: made of variables or of records, and changed by the operations;
* `Questionnaire.Valid`, **`Reachable.valid`**;
* `remove_eq`: what `Questionnaire.remove` gives and what it leaves;
* `valid_values_toVariable`: the value labels of a question are indexed if those of its variables are.
-/

namespace SurveyTables.Questionnaire

/-- The questionnaires that can be made. Their variables have value labels that can be made. -/
inductive Reachable : Questionnaire → Prop where
  | empty : Reachable {}
  | ofList {vs : List Variable} : (∀ v ∈ vs, v.values.Reachable) → Reachable (ofList vs)
  | ofRecords {records : List Document} {q : Questionnaire} : ofRecords records = .ok q → Reachable q
  | withSeparator {q : Questionnaire} (separator : String) :
    Reachable q → Reachable { q with separator }
  | add {q : Questionnaire} {v : Variable} : Reachable q → v.values.Reachable → Reachable (q.add v)
  | remove {q : Questionnaire} (id : String) : Reachable q → Reachable (q.remove id).2
  | gathered {q : Questionnaire} (exceptions : List String) :
    Reachable q → Reachable (q.gathered exceptions)

/-- The index of the variables is right, and so are those of their value labels. -/
structure Valid (q : Questionnaire) : Prop where
  index : q.catalog.Valid
  values : ∀ v ∈ q.toList, v.values.Valid

variable {q : Questionnaire} {v : Variable}

theorem valid_empty (hierarchical : Bool) (separator : String) : Valid { hierarchical, separator } where
  index := Catalog.valid_empty
  values := by simp [toList, Catalog.toList, Catalog.empty]

theorem Valid.add (hq : q.Valid) (hv : v.values.Valid) : (q.add v).Valid where
  index := hq.index.renew v
  values w hw := by
    rw [toList, Questionnaire.add, hq.index.toList_renew, List.mem_append, List.mem_singleton] at hw
    rcases hw with hw | rfl
    · exact hq.values w (List.mem_filter.mp hw).1
    · exact hv

theorem Valid.foldl_add (hq : q.Valid) {vs : List Variable} (hvs : ∀ v ∈ vs, v.values.Valid) :
    (vs.foldl Questionnaire.add q).Valid := by
  induction vs generalizing q with
  | nil => exact hq
  | cons v vs ih =>
    exact ih (hq.add (hvs v List.mem_cons_self)) fun w hw => hvs w (List.mem_cons_of_mem _ hw)

/-- A variable is removed just if it can be looked up, and its place in the catalog goes with it. -/
theorem remove_eq (q : Questionnaire) (id : String) :
    q.remove id = (q.get id, { q with catalog := q.catalog.erase id }) := by
  rw [Questionnaire.remove, Catalog.take_eq, get, find?]
  cases q.catalog.find? id with
  | none => rfl
  | some v => rfl

theorem Valid.remove (hq : q.Valid) (id : String) : (q.remove id).2.Valid := by
  rw [remove_eq]
  refine ⟨hq.index.erase id, fun w hw => ?_⟩
  rw [toList, hq.index.toList_erase, List.mem_filter] at hw
  exact hq.values w hw.1

/-! ## Questions -/

theorem values_eq_foldl (question : Question) :
    question.values = (question.members.map Variable.values).foldl Labels.merge question.first.values := by
  rw [Question.values, List.foldl_map]

theorem valid_values_toVariable {question : Question} (h : question.first.values.Valid) :
    question.toVariable.values.Valid := by
  rw [Question.toVariable, values_eq_foldl]
  exact Labels.valid_foldl_merge h _

theorem Valid.gathered (hq : q.Valid) (exceptions : List String) : (q.gathered exceptions).Valid := by
  cases h : q.hierarchical with
  | true =>
    rw [gathered_of_hierarchical exceptions h]
    exact hq
  | false =>
    rw [Questionnaire.gathered, h, if_neg Bool.false_ne_true]
    refine (valid_empty true q.separator).foldl_add fun v hv => ?_
    obtain ⟨question, hquestion, rfl⟩ := List.mem_map.mp hv
    have hfirst : question.first ∈ q.toList := by
      have hmembers := (finds_questions q exceptions).members_eq question hquestion
      have hmem : question.first ∈ question.members := List.mem_cons_self
      rw [hmembers] at hmem
      exact (List.mem_filter.mp hmem).1
    exact valid_values_toVariable (hq.values _ hfirst)

theorem Valid.ofList {vs : List Variable} (hvs : ∀ v ∈ vs, v.values.Valid) : (ofList vs).Valid :=
  (valid_empty false "_").foldl_add hvs

/-- **All questionnaires that can come up are indexed.** -/
theorem Reachable.valid (h : q.Reachable) : q.Valid := by
  induction h with
  | empty => exact valid_empty false "_"
  | ofList hvs => exact Valid.ofList fun v hv => (hvs v hv).valid
  | ofRecords h =>
    obtain ⟨vs, hvs, rfl⟩ := exists_of_map_eq_ok h
    exact Valid.ofList (Variable.valid_values_of_records hvs)
  | withSeparator separator _ ih => exact ⟨ih.index, ih.values⟩
  | add _ hv ih => exact ih.add hv.valid
  | remove id _ ih => exact ih.remove id
  | gathered exceptions _ ih => exact ih.gathered exceptions

end SurveyTables.Questionnaire
