import SurveyTables.Questionnaire.Questions

/-!
# The question of a variable

* `IsQuestionId`: the id of the question that a variable belongs to, said without looking for it;
* `beforeFirst_cases`: what is cut off at a separator;
* `isQuestionId_questionId`, `IsQuestionId.unique`: the id that is found, and that there is no other;
* **`questionId_eq_iff`**.
-/

namespace SurveyTables.Questionnaire

/-- The text is the id of the question of a variable: its whole id if the separator is empty or the
variable is an exception, and otherwise what stands before the first separator in it, which is all if
there is none. -/
inductive IsQuestionId (separator : String) (exceptions : List String) (id : String) : String → Prop where
  | whole : separator = "" ∨ id ∈ exceptions → IsQuestionId separator exceptions id id
  | unsplit : (∀ before behind, id ≠ before ++ separator ++ behind) →
    IsQuestionId separator exceptions id id
  | split {question rest : String} : separator ≠ "" → id ∉ exceptions →
    id = question ++ separator ++ rest →
    (∀ before behind, id = before ++ separator ++ behind → question.length ≤ before.length) →
    IsQuestionId separator exceptions id question

theorem beforeFirst_cases {separator : List Char} (h : separator ≠ []) (cs : List Char) :
    (beforeFirst separator cs = cs ∧ ∀ before behind, cs ≠ before ++ (separator ++ behind)) ∨
      ((∃ rest, cs = beforeFirst separator cs ++ (separator ++ rest)) ∧
        ∀ before behind, cs = before ++ (separator ++ behind) →
          (beforeFirst separator cs).length ≤ before.length) := by
  induction cs with
  | nil =>
    left
    refine ⟨rfl, fun before behind hcs => h ?_⟩
    rw [eq_comm, List.append_eq_nil_iff, List.append_eq_nil_iff] at hcs
    exact hcs.2.1
  | cons c cs ih =>
    rw [beforeFirst]
    split
    · next hprefix =>
      right
      obtain ⟨rest, hrest⟩ := List.isPrefixOf_iff_prefix.mp hprefix
      exact ⟨⟨rest, hrest.symm⟩, fun before _ _ => Nat.zero_le before.length⟩
    · next hprefix =>
      have hstep : ∀ before behind, c :: cs = before ++ (separator ++ behind) →
          ∃ before', before = c :: before' ∧ cs = before' ++ (separator ++ behind) := by
        intro before behind hcs
        cases before with
        | nil => exact absurd (List.isPrefixOf_iff_prefix.mpr ⟨behind, hcs.symm⟩) hprefix
        | cons b before' =>
          obtain ⟨rfl, hrest⟩ := List.cons.inj hcs
          exact ⟨before', rfl, hrest⟩
      rcases ih with ⟨hself, hnowhere⟩ | ⟨⟨rest, hrest⟩, hfirst⟩
      · left
        refine ⟨by rw [hself], fun before behind hcs => ?_⟩
        obtain ⟨before', -, hcs⟩ := hstep before behind hcs
        exact hnowhere before' behind hcs
      · right
        refine ⟨⟨rest, congrArg (c :: ·) hrest⟩, fun before behind hcs => ?_⟩
        obtain ⟨before', rfl, hcs'⟩ := hstep before behind hcs
        exact Nat.succ_le_succ (hfirst before' behind hcs')

theorem eq_append_iff {id before separator behind : String} :
    id = before ++ separator ++ behind ↔
      id.toList = before.toList ++ (separator.toList ++ behind.toList) := by
  rw [← String.toList_inj, String.toList_append, String.toList_append, List.append_assoc]

theorem isQuestionId_questionId (separator : String) (exceptions : List String) (id : String) :
    IsQuestionId separator exceptions id (questionId separator exceptions id) := by
  by_cases hwhole : separator = "" ∨ id ∈ exceptions
  · rw [questionId, if_pos (by simpa using hwhole)]
    exact .whole hwhole
  · obtain ⟨hseparator, hexception⟩ := not_or.mp hwhole
    rw [questionId, if_neg (by simpa using hwhole)]
    have hchars : separator.toList ≠ [] := by simpa using hseparator
    rcases beforeFirst_cases hchars id.toList with
      ⟨hself, hnowhere⟩ | ⟨⟨rest, hrest⟩, hfirst⟩
    · rw [hself, String.ofList_toList]
      exact .unsplit fun before behind h => hnowhere _ _ (eq_append_iff.mp h)
    · have hid : id = String.ofList (beforeFirst separator.toList id.toList) ++ separator ++
          String.ofList rest := by
        rw [eq_append_iff, String.toList_ofList, String.toList_ofList]
        exact hrest
      refine .split hseparator hexception hid fun before behind h => ?_
      rw [← String.length_toList, ← String.length_toList, String.toList_ofList]
      exact hfirst _ _ (eq_append_iff.mp h)

theorem IsQuestionId.unique {separator : String} {exceptions : List String} {id a b : String}
    (ha : IsQuestionId separator exceptions id a) (hb : IsQuestionId separator exceptions id b) :
    a = b := by
  cases ha with
  | whole h =>
    cases hb with
    | whole | unsplit => rfl
    | split hseparator hexception => exact absurd h (not_or.mpr ⟨hseparator, hexception⟩)
  | unsplit h =>
    cases hb with
    | whole | unsplit => rfl
    | split _ _ hid => exact absurd hid (h _ _)
  | split hseparator hexception hid hleast =>
    cases hb with
    | whole h => exact absurd h (not_or.mpr ⟨hseparator, hexception⟩)
    | unsplit h => exact absurd hid (h _ _)
    | split _ _ hid' hleast' =>
      have hlength : a.toList.length = b.toList.length := by
        rw [String.length_toList, String.length_toList]
        exact Nat.le_antisymm (hleast _ _ hid') (hleast' _ _ hid)
      have happend := (eq_append_iff.mp hid).symm.trans (eq_append_iff.mp hid')
      exact String.toList_inj.mp (List.append_inj_left happend hlength)

/-- **The id of the question** is what it is said to be. -/
theorem questionId_eq_iff {separator : String} {exceptions : List String} {id question : String} :
    questionId separator exceptions id = question ↔ IsQuestionId separator exceptions id question := by
  constructor
  · rintro rfl
    exact isQuestionId_questionId separator exceptions id
  · exact (isQuestionId_questionId separator exceptions id).unique

end SurveyTables.Questionnaire
