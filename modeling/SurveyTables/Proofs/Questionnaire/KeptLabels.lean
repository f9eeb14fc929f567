import SurveyTables.Proofs.Questionnaire.Gathering
import SurveyTables.Proofs.Variable.Merging

/-!
# The value labels of questions

A question has the value labels of its variables. Its children are these variables behind the children
that the first of them brings along, whose value labels it does not take over.

* `LastLabel`, `lastLabel_append_iff`: the label of a code in the last of some variables that have one;
* `LabelsOf`: value labels are those of some variables together;
* `LabelsOf.append_iff`: they are those of more variables just if these have no further codes;
* **`labelsOf_children_iff`**: so a question has the value labels of its children just if the children
  brought along have no codes that its variables lack.
-/

namespace SurveyTables.Questionnaire

/-- The last of the variables that have a label for the code has this one. -/
def LastLabel (vs : List Variable) (code label : String) : Prop :=
  ∃ before v behind, vs = before ++ v :: behind ∧ (code, label) ∈ v.values.toList ∧
    ∀ w ∈ behind, code ∉ w.values.codes

/-- The value labels are those of the variables together: they have all codes of these, each with its
last label. -/
structure LabelsOf (vs : List Variable) (values : Labels) : Prop where
  mem_codes_iff : ∀ code, code ∈ values.codes ↔ ∃ v ∈ vs, code ∈ v.values.codes
  mem_iff : ∀ code label, (code, label) ∈ values.toList ↔ LastLabel vs code label

variable {vs ws : List Variable} {values : Labels} {code label : String}

theorem LastLabel.append_left (h : LastLabel vs code label) (us : List Variable) :
    LastLabel (us ++ vs) code label := by
  obtain ⟨before, v, behind, rfl, hlabel, hnone⟩ := h
  exact ⟨us ++ before, v, behind, (List.append_assoc us before _).symm, hlabel, hnone⟩

theorem lastLabel_append_iff : LastLabel (vs ++ ws) code label ↔
    LastLabel ws code label ∨
      LastLabel vs code label ∧ ∀ w ∈ ws, code ∉ w.values.codes := by
  constructor
  · rintro ⟨before, v, behind, hsplit, hlabel, hnone⟩
    rcases List.append_eq_append_iff.mp hsplit with ⟨us, rfl, hws⟩ | ⟨us, hvs, hbehind⟩
    · exact .inl ⟨us, v, behind, hws, hlabel, hnone⟩
    · cases us with
      | nil =>
        rw [List.nil_append] at hbehind
        exact .inl ⟨[], v, behind, hbehind.symm, hlabel, hnone⟩
      | cons u us =>
        obtain ⟨rfl, rfl⟩ := List.cons.inj hbehind
        exact .inr ⟨⟨before, v, us, hvs, hlabel, fun w hw => hnone w (List.mem_append_left _ hw)⟩,
          fun w hw => hnone w (List.mem_append_right _ hw)⟩
  · rintro (h | ⟨⟨before, v, behind, rfl, hlabel, hnone⟩, hnobody⟩)
    · exact h.append_left vs
    · refine ⟨before, v, behind ++ ws, by simp, hlabel, fun w hw => ?_⟩
      exact (List.mem_append.mp hw).elim (hnone w) (hnobody w)

theorem LastLabel.exists_mem_codes (h : LastLabel vs code label) :
    ∃ v ∈ vs, code ∈ v.values.codes := by
  obtain ⟨before, v, behind, rfl, hlabel, -⟩ := h
  exact ⟨v, List.mem_append_right _ List.mem_cons_self, List.mem_map_of_mem hlabel⟩

/-- **More variables in front** change nothing just if they have no further codes. -/
theorem LabelsOf.append_iff (h : LabelsOf ws values) : LabelsOf (vs ++ ws) values ↔
    ∀ v ∈ vs, ∀ code ∈ v.values.codes, ∃ w ∈ ws, code ∈ w.values.codes := by
  constructor
  · intro hall v hv code hcode
    rw [← h.mem_codes_iff, hall.mem_codes_iff]
    exact ⟨v, List.mem_append_left _ hv, hcode⟩
  · intro hknown
    refine ⟨fun code => ?_, fun code label => ?_⟩
    · rw [h.mem_codes_iff]
      constructor
      · rintro ⟨w, hw, hcode⟩
        exact ⟨w, List.mem_append_right _ hw, hcode⟩
      · rintro ⟨v, hv, hcode⟩
        rcases List.mem_append.mp hv with hv | hv
        · exact hknown v hv code hcode
        · exact ⟨v, hv, hcode⟩
    · rw [h.mem_iff, lastLabel_append_iff]
      refine ⟨.inl, fun hlabel => hlabel.resolve_right ?_⟩
      rintro ⟨hearlier, hnobody⟩
      obtain ⟨v, hv, hcode⟩ := hearlier.exists_mem_codes
      obtain ⟨w, hw, hcode⟩ := hknown v hv code hcode
      exact hnobody w hw hcode

theorem StandsFor.labelsOf {v first : Variable} {others : List Variable}
    (h : StandsFor v first others) : LabelsOf (first :: others) v.values where
  mem_codes_iff code := by rw [h.codes.mem_iff, List.mem_flatMap]
  mem_iff := h.mem_values_iff

/-! ## The children of a question -/

variable {q : Questionnaire}

theorem exists_standsFor_of_mem_gathered (hq : q.Valid) (h : q.hierarchical = false)
    (exceptions : List String) {v : Variable} (hv : v ∈ (q.gathered exceptions).toList) :
    ∃ first others, q.membersOf exceptions v.id = first :: others ∧ StandsFor v first others := by
  rw [toList_gathered exceptions h] at hv
  obtain ⟨question, hquestion, rfl⟩ := List.mem_map.mp hv
  have hmembers := (finds_questions q exceptions).members_eq question hquestion
  refine ⟨question.first, question.others, hmembers.symm, standsFor_toVariable fun m hm => ?_⟩
  rw [hmembers] at hm
  exact hq.values m (List.mem_filter.mp hm).1

/-- **The value labels of a question** are those of its variables. They are those of all its children just
if the children brought along have no codes that its variables lack. -/
theorem labelsOf_children_iff (hq : q.Reachable) (h : q.hierarchical = false)
    (exceptions : List String) {v : Variable} (hv : v ∈ (q.gathered exceptions).toList) :
    ∃ first others, q.membersOf exceptions v.id = first :: others ∧
      v.children = first.children ++ first :: others ∧
      LabelsOf (first :: others) v.values ∧
      (∀ code label, (code, label) ∈ v.values.toList → LastLabel v.children code label) ∧
      (LabelsOf v.children v.values ↔ ∀ c ∈ first.children, ∀ code ∈ c.values.codes,
        ∃ m ∈ first :: others, code ∈ m.values.codes) := by
  obtain ⟨first, others, hmembers, hstands⟩ :=
    exists_standsFor_of_mem_gathered hq.valid h exceptions hv
  have hlabels := hstands.labelsOf
  refine ⟨first, others, hmembers, hstands.children_eq, hlabels, fun code label hlabel => ?_, ?_⟩
  · rw [hstands.children_eq]
    exact ((hlabels.mem_iff code label).mp hlabel).append_left first.children
  · rw [hstands.children_eq]
    exact hlabels.append_iff

/-- A variable above another one, which has a code for other answers. -/
def petVariable (values : Labels) : Variable where
  id := "pet"
  values := values
  children := [{ id := "pet_other", values := .ofPairs [("9", "Other")] }]

section Pet

variable (values : Labels)

theorem reachable_petVariable (h : values.Reachable) : (ofList [petVariable values]).Reachable := by
  refine .ofList fun v hv => ?_
  rw [List.mem_singleton.mp hv]
  exact h

theorem toList_petVariable : (ofList [petVariable values]).toList = [petVariable values] :=
  toList_ofList (List.nodup_singleton _)

theorem exists_gathered_petVariable :
    ∃ v ∈ ((ofList [petVariable values]).gathered []).toList, v.id = "pet" := by
  have hids : (ofList [petVariable values]).ids = ["pet"] :=
    congrArg (List.map Variable.id) (toList_petVariable values)
  have hquestion : "pet" ∈ (["pet"].map (questionId "_" [])).eraseDups := by decide
  have hmem : "pet" ∈ ((ofList [petVariable values]).gathered []).ids := by
    rw [ids_gathered [] rfl, hids]
    exact hquestion
  exact List.mem_map.mp hmem

theorem membersOf_petVariable :
    (ofList [petVariable values]).membersOf [] "pet" = [petVariable values] := by
  have hquestion : (questionId "_" [] "pet" == "pet") = true := by decide
  rw [membersOf, toList_petVariable]
  exact List.filter_cons_of_pos hquestion

end Pet

set_option maxRecDepth 100000 in
theorem codes_otherLabel : (Labels.ofPairs [("9", "Other")]).codes = ["9"] := by
  cbv

/-- The question keeps the code for other answers if the variable has it too. -/
theorem labelsOf_children_iff_pet :
    (ofList [petVariable (.ofPairs [("9", "Other")])]).Reachable ∧
    ∃ v ∈ ((ofList [petVariable (.ofPairs [("9", "Other")])]).gathered []).toList,
      LabelsOf v.children v.values ∧ "9" ∈ v.values.codes := by
  have hreachable := reachable_petVariable _ (.ofPairs [("9", "Other")])
  obtain ⟨v, hv, hid⟩ := exists_gathered_petVariable (.ofPairs [("9", "Other")])
  obtain ⟨first, others, hmembers, hchildren, hlabels, -, hiff⟩ :=
    labelsOf_children_iff hreachable rfl [] hv
  rw [hid, membersOf_petVariable] at hmembers
  obtain ⟨rfl, rfl⟩ := List.cons.inj hmembers
  refine ⟨hreachable, v, hv, hiff.mpr fun c hc code hcode => ?_, ?_⟩
  · rw [List.mem_singleton.mp hc] at hcode
    exact ⟨_, List.mem_cons_self, hcode⟩
  · rw [hlabels.mem_codes_iff]
    refine ⟨_, List.mem_cons_self, ?_⟩
    show "9" ∈ (Labels.ofPairs [("9", "Other")]).codes
    rw [codes_otherLabel]
    exact List.mem_singleton_self _

/-- The question loses the code for other answers if the variable does not have it. -/
theorem not_labelsOf_children : (ofList [petVariable .empty]).Reachable ∧
    (ofList [petVariable .empty]).hierarchical = false ∧
    ∃ v ∈ ((ofList [petVariable .empty]).gathered []).toList, ¬ LabelsOf v.children v.values := by
  have hreachable := reachable_petVariable _ .empty
  obtain ⟨v, hv, hid⟩ := exists_gathered_petVariable .empty
  obtain ⟨first, others, hmembers, hstands⟩ :=
    exists_standsFor_of_mem_gathered hreachable.valid rfl [] hv
  rw [hid, membersOf_petVariable] at hmembers
  obtain ⟨rfl, rfl⟩ := List.cons.inj hmembers
  refine ⟨hreachable, rfl, v, hv, fun hchildren => ?_⟩
  rw [hstands.children_eq, hstands.labelsOf.append_iff] at hchildren
  have hother : "9" ∈ (Labels.ofPairs [("9", "Other")]).codes := by
    rw [codes_otherLabel]
    exact List.mem_singleton_self _
  obtain ⟨m, hm, hcode⟩ := hchildren _ (List.mem_singleton_self _) "9" hother
  rw [List.mem_singleton.mp hm] at hcode
  exact nomatch hcode

end SurveyTables.Questionnaire
