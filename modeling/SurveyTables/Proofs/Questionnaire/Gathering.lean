import SurveyTables.Proofs.Questionnaire.QuestionId
import SurveyTables.Proofs.Questionnaire.Valid

/-!
# Gathering

Gathering sorts the variables of a questionnaire into questions, each variable into one.

* `FirstSeen`, `firstSeen_eraseDups`: what a list has, each once and in the order of the first places;
* `StandsFor`, `standsFor_toVariable`: a variable that stands for the question of some variables;
* `IsGathering`, **`gathered_isGathering`**: the questions of a questionnaire, which are not gathered any
  further.
-/

namespace SurveyTables.Questionnaire

/-- The second list has what the first has, each once and in the order of the first places. -/
structure FirstSeen (xs ys : List String) : Prop where
  nodup : ys.Nodup
  mem_iff : ∀ x, x ∈ ys ↔ x ∈ xs
  ordered : ys.Pairwise fun x y => xs.idxOf x < xs.idxOf y

theorem firstSeen_eraseDups (xs : List String) : FirstSeen xs xs.eraseDups where
  nodup := Catalog.nodup_eraseDups xs
  mem_iff _ := List.mem_eraseDups
  ordered := Catalog.pairwise_idxOf_eraseDups xs

/-! ## Questions -/

/-- The variable stands for the question of the variables, which are its last children. The type, the
label and the kind of question it has from the first of them, and so its first children. Its value labels
have the codes of all in the order in which they are seen first, each with the label that the last of
them has for it. -/
structure StandsFor (v first : Variable) (others : List Variable) : Prop where
  valueType_eq : v.valueType = first.valueType
  label_eq : v.label = first.label
  questionType_eq : v.questionType = first.questionType
  children_eq : v.children = first.children ++ first :: others
  codes : FirstSeen ((first :: others).flatMap fun m => m.values.codes) v.values.codes
  mem_values_iff : ∀ code label, (code, label) ∈ v.values.toList ↔
    ∃ before m behind, first :: others = before ++ m :: behind ∧ (code, label) ∈ m.values.toList ∧
      ∀ w ∈ behind, code ∉ w.values.codes

theorem findSome?_reverse_eq_some_iff {ms : List Variable} (hms : ∀ m ∈ ms, m.values.Valid)
    {code label : String} : ms.reverse.findSome? (fun m => m.values.label? code) = some label ↔
      ∃ before m behind, ms = before ++ m :: behind ∧ (code, label) ∈ m.values.toList ∧
        ∀ w ∈ behind, code ∉ w.values.codes := by
  rw [List.findSome?_eq_some_iff]
  constructor
  · rintro ⟨behind, m, before, hsplit, hlabel, hnone⟩
    have hms' : ms = before.reverse ++ m :: behind.reverse := by
      rw [List.reverse_eq_iff.mp hsplit, List.reverse_append, List.reverse_cons, List.append_assoc,
        List.singleton_append]
    have hvalid : ∀ w ∈ m :: behind, w.values.Valid := by
      intro w hw
      refine hms w (List.mem_reverse.mp ?_)
      rw [hsplit]
      rcases List.mem_cons.mp hw with rfl | hw
      · exact List.mem_append_right _ List.mem_cons_self
      · exact List.mem_append_left _ hw
    refine ⟨before.reverse, m, behind.reverse, hms', ?_, fun w hw => ?_⟩
    · exact (Labels.mem_toList_iff (hvalid m List.mem_cons_self)).mpr hlabel
    · have hmem := List.mem_reverse.mp hw
      exact (Labels.label?_eq_none_iff (hvalid w (List.mem_cons_of_mem _ hmem))).mp (hnone w hmem)
  · rintro ⟨before, m, behind, rfl, hlabel, hnone⟩
    have hvalid : ∀ w ∈ m :: behind, w.values.Valid :=
      fun w hw => hms w (List.mem_append_right _ hw)
    refine ⟨behind.reverse, m, before.reverse, ?_, ?_, fun w hw => ?_⟩
    · rw [List.reverse_append, List.reverse_cons, List.append_assoc, List.singleton_append]
    · exact (Labels.mem_toList_iff (hvalid m List.mem_cons_self)).mp hlabel
    · have hmem := List.mem_reverse.mp hw
      exact (Labels.label?_eq_none_iff (hvalid w (List.mem_cons_of_mem _ hmem))).mpr (hnone w hmem)

theorem findSome?_or_of_mem {α β : Type} {f : α → Option β} {as : List α} {a : α} (h : a ∈ as) :
    (as.findSome? f).or (f a) = as.findSome? f := by
  cases hsome : as.findSome? f with
  | some b => rfl
  | none => exact List.findSome?_eq_none_iff.mp hsome a h

/-- **The variable for a question stands for it.** The labels of the first variable are merged into
themselves, which changes nothing. -/
theorem standsFor_toVariable {question : Question} (h : ∀ m ∈ question.members, m.values.Valid) :
    StandsFor question.toVariable question.first question.others where
  valueType_eq := rfl
  label_eq := rfl
  questionType_eq := rfl
  children_eq := rfl
  codes := by
    have hcodes : question.toVariable.values.codes =
        (question.members.flatMap fun m => m.values.codes).eraseDups := by
      rw [Question.toVariable, values_eq_foldl,
        Labels.codes_foldl_merge (h question.first List.mem_cons_self), List.flatMap_map]
      exact Catalog.eraseDups_append_append _ _
    rw [hcodes]
    exact firstSeen_eraseDups _
  mem_values_iff code label := by
    have hfirst := h question.first List.mem_cons_self
    have hlabel : question.toVariable.values.label? code =
        question.members.reverse.findSome? fun m => m.values.label? code := by
      have hvalues : ∀ values ∈ question.members.map Variable.values, values.Valid := by
        intro values hvalues
        obtain ⟨m, hm, rfl⟩ := List.mem_map.mp hvalues
        exact h m hm
      rw [Question.toVariable, values_eq_foldl, Labels.label?_foldl_merge hfirst hvalues,
        ← List.map_reverse, List.findSome?_map]
      have hmem : question.first ∈ question.members.reverse :=
        List.mem_reverse.mpr List.mem_cons_self
      exact findSome?_or_of_mem hmem
    rw [Labels.mem_toList_iff (valid_values_toVariable hfirst), hlabel]
    exact findSome?_reverse_eq_some_iff h

/-! ## The questions of a questionnaire -/

variable {q : Questionnaire}

/-- The variables of the question with the id, in order. -/
def membersOf (q : Questionnaire) (exceptions : List String) (id : String) : List Variable :=
  q.toList.filter fun m => questionId q.separator exceptions m.id == id

/-- The variables of the second questionnaire stand for the questions of the first, in the order in which
these are first seen. Each variable of the first belongs to exactly one of them. -/
structure IsGathering (q : Questionnaire) (exceptions : List String) (q' : Questionnaire) : Prop where
  hierarchical_eq : q'.hierarchical = true
  separator_eq : q'.separator = q.separator
  ids : FirstSeen (q.ids.map (questionId q.separator exceptions)) q'.ids
  standsFor : ∀ v ∈ q'.toList, ∃ first others, q.membersOf exceptions v.id = first :: others ∧
    StandsFor v first others
  exists_unique : ∀ m ∈ q.toList, ∃! v, v ∈ q'.toList ∧ m ∈ q.membersOf exceptions v.id

/-- **Gathering sorts the variables into questions**, in the order in which these are first seen. What has
been gathered stays as it is. -/
theorem gathered_isGathering (hq : q.Reachable) (h : q.hierarchical = false)
    (exceptions : List String) :
    (∀ id question, questionId q.separator exceptions id = question ↔
      IsQuestionId q.separator exceptions id question) ∧
    IsGathering q exceptions (q.gathered exceptions) ∧
    ∀ others, (q.gathered exceptions).gathered others = q.gathered exceptions := by
  have hfinds := finds_questions q exceptions
  have hflag : (q.gathered exceptions).hierarchical = true := by rw [gathered_eq exceptions h]
  have hids := ids_gathered exceptions h
  have hgathered := (hq.valid.gathered exceptions).index.nodup
  refine ⟨fun _ _ => questionId_eq_iff, ⟨hflag, by rw [gathered_eq exceptions h], ?_, ?_, ?_⟩,
    fun _ => gathered_of_hierarchical _ hflag⟩
  · rw [hids]
    exact firstSeen_eraseDups _
  · intro v hv
    rw [toList_gathered exceptions h] at hv
    obtain ⟨question, hquestion, rfl⟩ := List.mem_map.mp hv
    have hmembers := hfinds.members_eq question hquestion
    refine ⟨question.first, question.others, hmembers.symm, standsFor_toVariable fun m hm => ?_⟩
    rw [hmembers] at hm
    exact hq.valid.values m (List.mem_filter.mp hm).1
  · intro m hm
    have hid : questionId q.separator exceptions m.id ∈ (q.gathered exceptions).ids := by
      rw [hids, List.mem_eraseDups]
      exact List.mem_map_of_mem (List.mem_map_of_mem hm)
    obtain ⟨v, hv, hvid⟩ := List.mem_map.mp hid
    refine ⟨v, ⟨hv, List.mem_filter.mpr ⟨hm, beq_iff_eq.mpr hvid.symm⟩⟩, ?_⟩
    rintro w ⟨hw, hmw⟩
    have hwid := beq_iff_eq.mp (List.mem_filter.mp hmw).2
    exact List.inj_on_of_nodup_map hgathered hw hv (hwid.symm.trans hvid.symm)

/-- Two options of one question whose labels collide, between a variable without a separator and an
exception. -/
def optionVariables : List Variable :=
  [{ id := "q1" },
    { id := "q5_1", label := "Yes?", values := .ofPairs [("1", "Yes"), ("0", "No")] },
    { id := "q5_2", values := .ofPairs [("1", "Selected")] }, { id := "q6_1" }]

theorem reachable_optionVariables : (ofList optionVariables).Reachable := by
  refine .ofList fun v hv => ?_
  simp only [optionVariables, List.mem_cons, List.not_mem_nil, or_false] at hv
  rcases hv with rfl | rfl | rfl | rfl
  · exact .empty
  · exact .ofPairs _
  · exact .ofPairs _
  · exact .empty

theorem toList_optionVariables : (ofList optionVariables).toList = optionVariables :=
  toList_ofList (by decide)

set_option maxRecDepth 100000 in
theorem toList_optionLabels : (Labels.ofPairs [("1", "Yes"), ("0", "No")]).toList =
    [("1", "Yes"), ("0", "No")] := by
  cbv

set_option maxRecDepth 100000 in
theorem toList_selectedLabel : (Labels.ofPairs [("1", "Selected")]).toList = [("1", "Selected")] := by
  cbv

/-- The two options become one question, and the later label of the code counts. -/
theorem gathered_isGathering_optionVariables : ∃ q,
    (ofList optionVariables).Reachable ∧ (ofList optionVariables).gathered ["q6_1"] = q ∧
    IsGathering (ofList optionVariables) ["q6_1"] q ∧ q.ids = ["q1", "q5", "q6_1"] ∧
    ∃ v ∈ q.toList, v.id = "q5" ∧ v.children = (optionVariables.drop 1).take 2 ∧
      ("1", "Selected") ∈ v.values.toList ∧ ("0", "No") ∈ v.values.toList := by
  obtain ⟨-, h, -⟩ := gathered_isGathering reachable_optionVariables rfl ["q6_1"]
  have hids : ((ofList optionVariables).gathered ["q6_1"]).ids = ["q1", "q5", "q6_1"] := by
    rw [ids_gathered ["q6_1"] rfl, show (ofList optionVariables).ids = optionVariables.map Variable.id
      from congrArg (List.map Variable.id) toList_optionVariables]
    decide
  have hmem : "q5" ∈ ((ofList optionVariables).gathered ["q6_1"]).ids := by
    rw [hids]
    decide
  obtain ⟨v, hv, hid⟩ := List.mem_map.mp hmem
  obtain ⟨first, others, hmembers, hstands⟩ := h.standsFor v hv
  rw [hid, membersOf, toList_optionVariables] at hmembers
  obtain ⟨rfl, rfl⟩ := List.cons.inj
    (hmembers.symm.trans (rfl : _ = (optionVariables.drop 1).take 2))
  refine ⟨_, reachable_optionVariables, rfl, h, hids, v, hv, hid, hstands.children_eq, ?_, ?_⟩
  · refine (hstands.mem_values_iff "1" "Selected").mpr ⟨[_], _, [], rfl, ?_, by simp⟩
    rw [toList_selectedLabel]
    exact List.mem_singleton_self _
  · refine (hstands.mem_values_iff "0" "No").mpr ⟨[], _, [_], rfl, ?_, fun w hw => ?_⟩
    · rw [toList_optionLabels]
      decide
    · rw [List.mem_singleton.mp hw, Labels.codes, Catalog.keys, toList_selectedLabel]
      decide

end SurveyTables.Questionnaire
