import SurveyTables.Proofs.Catalog.Updates
import SurveyTables.Questionnaire.Questions

/-!
# Finding the questions

One pass through the variables finds the questions.

* `Finds`: the questions have the ids in the order in which they are first seen, and each has the
  variables with its id;
* `Finds.noteMember`: one more variable keeps this;
* **`finds_questions`**: so it holds of all variables;
* **`toList_gathered`**, `ids_gathered`: the variables of a gathered questionnaire stand for the questions.
-/

namespace SurveyTables.Questionnaire

/-- The questions are those that the variables have by the function of their ids, in the order in which
they are first seen. Each has the variables with its id, in order. -/
structure Finds (question : String → String) (vs : List Variable) (found : Catalog Question.id) :
    Prop where
  index : found.Valid
  keys_eq : found.keys = (vs.map fun v => question v.id).eraseDups
  members_eq : ∀ entry ∈ found.toList, entry.members = vs.filter fun v => question v.id == entry.id

variable {question : String → String} {vs : List Variable} {found : Catalog Question.id}

theorem filter_append_member {v : Variable} {id : String} (hv : question v.id = id) :
    (vs ++ [v]).filter (fun w => question w.id == id) =
      (vs.filter fun w => question w.id == id) ++ [v] := by
  rw [List.filter_append, List.filter_cons_of_pos (by simpa using hv), List.filter_nil]

namespace Finds

theorem empty : Finds question [] .empty where
  index := Catalog.valid_empty
  keys_eq := rfl
  members_eq := by simp [Catalog.toList, Catalog.empty]

theorem mem_keys_iff (h : Finds question vs found) {id : String} :
    id ∈ found.keys ↔ ∃ v ∈ vs, question v.id = id := by
  rw [h.keys_eq, List.mem_eraseDups, List.mem_map]

theorem members_append (h : Finds question vs found) {entry : Question} (hentry : entry ∈ found.toList)
    {v : Variable} (hv : question v.id ≠ entry.id) :
    entry.members = (vs ++ [v]).filter fun w => question w.id == entry.id := by
  rw [List.filter_append, List.filter_cons_of_neg (by simpa using hv), List.filter_nil,
    List.append_nil, h.members_eq entry hentry]

theorem ids_append (h : Finds question vs found) (v : Variable) :
    ((vs ++ [v]).map fun w => question w.id).eraseDups =
      if question v.id ∈ found.keys then found.keys else found.keys ++ [question v.id] := by
  rw [List.map_append, List.map_singleton, Catalog.eraseDups_append_singleton, h.keys_eq]
  simp only [List.mem_eraseDups]

/-- **One more variable** joins its question, or starts it. -/
theorem noteMember (h : Finds question vs found) (v : Variable) :
    Finds question (vs ++ [v]) (noteMember found (question v.id) v) := by
  rw [Questionnaire.noteMember]
  split
  · next entry hentry =>
    have hmem := h.index.mem_of_find? hentry
    have hid : entry.id = question v.id := h.index.key_of_find? hentry
    have hin : (entry.add v).id ∈ found.keys :=
      show entry.id ∈ found.keys from List.mem_map_of_mem hmem
    have hsame : question v.id = (entry.add v).id := hid.symm
    refine ⟨h.index.put _, ?_, fun other hother => ?_⟩
    · rw [(h.index.put_of_mem hin).2, h.ids_append, hsame, if_pos hin]
    · rcases h.index.mem_put hother with rfl | ⟨hother, hne⟩
      · rw [filter_append_member hsame]
        exact congrArg (· ++ [v]) (h.members_eq entry hmem)
      · exact h.members_append hother fun hv => hne (hv.symm.trans hid.symm)
  · next hnone =>
    have hnew : question v.id ∉ found.keys := by
      rw [← h.index.find?_isSome_iff, hnone]
      exact Bool.false_ne_true
    refine ⟨h.index.push hnew, ?_, fun other hother => ?_⟩
    · rw [Catalog.keys_push, h.ids_append, if_neg hnew]
    · rw [Catalog.toList_push, List.mem_append, List.mem_singleton] at hother
      rcases hother with hother | rfl
      · refine h.members_append hother fun hv => hnew ?_
        rw [hv]
        exact List.mem_map_of_mem hother
      · -- no earlier variable has the id
        have hnobody : (vs.filter fun w => question w.id == question v.id) = [] := by
          rw [List.filter_eq_nil_iff]
          intro w hw hsame
          exact hnew (h.mem_keys_iff.mpr ⟨w, hw, beq_iff_eq.mp hsame⟩)
        rw [filter_append_member rfl, hnobody]
        rfl

theorem foldl_noteMember (h : Finds question vs found) (ws : List Variable) :
    Finds question (vs ++ ws)
      (ws.foldl (fun found v => Questionnaire.noteMember found (question v.id) v) found) := by
  induction ws generalizing vs found with
  | nil => rwa [List.append_nil]
  | cons w ws ih =>
    rw [List.append_cons]
    exact ih (h.noteMember w)

end Finds

variable {q : Questionnaire}

/-- **The pass finds the questions of all variables.** -/
theorem finds_questions (q : Questionnaire) (exceptions : List String) :
    Finds (questionId q.separator exceptions) q.toList (q.questions exceptions) :=
  Finds.empty.foldl_noteMember q.toList

/-! ## The questionnaire of the questions -/

theorem foldl_add_eq (vs : List Variable) (q : Questionnaire) :
    vs.foldl add q = { q with catalog := vs.foldl Catalog.renew q.catalog } := by
  induction vs generalizing q with
  | nil => rfl
  | cons v vs ih => exact ih (q.add v)

theorem toList_ofList {vs : List Variable} (h : (vs.map Variable.id).Nodup) :
    (ofList vs).toList = vs := by
  rw [ofList, foldl_add_eq, toList, Catalog.valid_empty.toList_foldl_renew h]
  rfl

theorem gathered_of_hierarchical (exceptions : List String) (h : q.hierarchical = true) :
    q.gathered exceptions = q := by
  rw [gathered, if_pos h]

section Flat

variable (exceptions : List String) (h : q.hierarchical = false)
include h

theorem gathered_eq : q.gathered exceptions =
    { hierarchical := true, separator := q.separator,
      catalog := ((q.questions exceptions).toList.map Question.toVariable).foldl Catalog.renew
        .empty } := by
  rw [gathered, h, if_neg Bool.false_ne_true, foldl_add_eq]

/-- **The variables of a gathered questionnaire stand for the questions**, in their order. -/
theorem toList_gathered :
    (q.gathered exceptions).toList = (q.questions exceptions).toList.map Question.toVariable := by
  have hids : ((q.questions exceptions).toList.map Question.toVariable).map Variable.id =
      (q.questions exceptions).keys := List.map_map
  rw [gathered_eq exceptions h, toList, Catalog.valid_empty.toList_foldl_renew]
  · rfl
  · rw [hids]
    exact (finds_questions q exceptions).index.nodup

theorem ids_gathered :
    (q.gathered exceptions).ids = (q.ids.map (questionId q.separator exceptions)).eraseDups := by
  have hkeys := (finds_questions q exceptions).keys_eq
  have hids : (q.gathered exceptions).ids = (q.questions exceptions).keys := by
    have hlist := congrArg (List.map Variable.id) (toList_gathered exceptions h)
    rw [List.map_map] at hlist
    exact hlist
  rw [hids, hkeys, ids, Catalog.keys, List.map_map]
  rfl

end Flat

end SurveyTables.Questionnaire
