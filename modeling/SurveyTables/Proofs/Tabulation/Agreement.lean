import SurveyTables.Proofs.Tabulation.Lines

/-!
# Respondents who said the same

A table takes from a respondent what was said about the variables of the request, and nothing else.

* `referenced`: the variables that a request refers to;
* `Agree`: a respondent of some responses said about these variables what a respondent of others said;
* **`Agree.includes_eq`**, `Agree.weightIn_eq`, `Agree.shows_eq`, `Agree.inColumns_eq`: so both are
  included or not, weigh the same, show the same texts and are counted in a column or not.
-/

namespace SurveyTables

/-- The variables that a request refers to: those on its axes and the weight. -/
def Tabulation.referenced (d : Design) (o : Options) : List String :=
  d.variableIds ++ o.weight.toList

open Tabulation

theorem Design.mem_variableIds {d : Design} {axis : Axis} {g : Group} {id : String}
    (hg : g ∈ d.groups axis) (hid : id ∈ g) : id ∈ d.variableIds := by
  rw [Design.variableIds, List.mem_eraseDups, List.mem_flatMap]
  exact ⟨axis, by cases axis <;> decide, List.mem_flatten.mpr ⟨g, hg, hid⟩⟩

variable {r r' : Responses} {d : Design} {o : Options} {k k' : Nat}

theorem Tabulation.mem_referenced {axis : Axis} {g : Group} (hg : g ∈ d.groups axis) :
    ∀ id ∈ g, id ∈ referenced d o :=
  fun _ hid => List.mem_append_left _ (Design.mem_variableIds hg hid)

theorem Tabulation.weight_mem_referenced {id : String} (h : o.weight = some id) :
    id ∈ referenced d o := by
  rw [referenced, h]
  exact List.mem_append_right _ (List.mem_singleton_self id)

theorem Tabulation.Accepted.exists_referenced (ha : Accepted r d o) :
    ∃ id ∈ referenced d o, r.contains id = true := by
  obtain ⟨g, hg⟩ := List.exists_mem_of_ne_nil _ ha.rows_ne_nil
  obtain ⟨hne, hall⟩ := ha.group .rows g hg
  obtain ⟨id, hid⟩ := List.exists_mem_of_ne_nil _ hne
  exact ⟨id, mem_referenced (show g ∈ d.groups .rows from hg) id hid, hall id hid⟩

theorem Tabulation.Accepted.of_contains (ha : Accepted r d o)
    (h : ∀ id ∈ referenced d o, r'.contains id = r.contains id) : Accepted r' d o where
  rows_ne_nil := ha.rows_ne_nil
  columns_ne_nil := ha.columns_ne_nil
  group axis g hg := by
    refine ⟨(ha.group axis g hg).1, fun id hid => ?_⟩
    rw [h id (mem_referenced hg id hid), (ha.group axis g hg).2 id hid]
  weight id hid := by rw [h id (weight_mem_referenced hid), ha.weight id hid]

namespace Responses

theorem answersAll_eq_all (r : Responses) (g : Group) (k : Nat) :
    r.answersAll g k = (r.answers g k).all fun a => !a.isMissing := by
  rw [answers, List.all_map]
  rfl

theorem any_answered_eq_any (r : Responses) (gs : List Group) (k : Nat) :
    (gs.any fun g => g.any fun id => r.answered id k) =
      (gs.map (r.answers · k)).any fun as => as.any fun a => !a.isMissing := by
  simp [answers, answered, List.any_map, Function.comp_def]

/-- The respondent `k'` of `r'` said about the variables of the request what `k` of `r` said. -/
def Agree (r r' : Responses) (d : Design) (o : Options) (k k' : Nat) : Prop :=
  ∀ id ∈ referenced d o, r'.answer id k' = r.answer id k

namespace Agree

variable (h : Agree r r' d o k k')
include h

theorem answers_eq {axis : Axis} {g : Group} (hg : g ∈ d.groups axis) :
    r'.answers g k' = r.answers g k :=
  List.map_congr_left fun id hid => h id (mem_referenced hg id hid)

theorem answersAll_eq {axis : Axis} {g : Group} (hg : g ∈ d.groups axis) :
    r'.answersAll g k' = r.answersAll g k := by
  rw [answersAll_eq_all, answersAll_eq_all, h.answers_eq hg]

theorem shows_eq {axis : Axis} {g : Group} (hg : g ∈ d.groups axis) (ts : List String) :
    r'.shows g ts k' = r.shows g ts k := by
  rw [shows, shows, texts_eq, texts_eq, h.answersAll_eq hg, h.answers_eq hg]

theorem weightIn?_eq : r'.weightIn? o k' = r.weightIn? o k := by
  unfold weightIn?
  cases hw : o.weight with
  | none => rfl
  | some id => simp only [h id (weight_mem_referenced hw)]

theorem weightIn_eq : r'.weightIn o k' = r.weightIn o k := by
  rw [weightIn, weightIn, h.weightIn?_eq]

/-- **Those who said the same are both included, or both not.** -/
theorem includes_eq : r'.includes d o k' = r.includes d o k := by
  have hrows : d.rows.map (r'.answers · k') = d.rows.map (r.answers · k) :=
    List.map_congr_left fun g hg => h.answers_eq (show g ∈ d.groups .rows from hg)
  rw [includes, includes, any_answered_eq_any, any_answered_eq_any, hrows, h.weightIn?_eq]

theorem inColumns_eq : r'.inColumns d o k' = r.inColumns d o k := by
  have hcolumns : d.columns.map (r'.answersAll · k') = d.columns.map (r.answersAll · k) :=
    List.map_congr_left fun g hg => h.answersAll_eq (show g ∈ d.groups .columns from hg)
  have hany : ∀ s : Responses, ∀ k, (d.columns.any fun g => s.answersAll g k) =
      (d.columns.map (s.answersAll · k)).any id := by
    intro s k
    rw [List.any_map]
    rfl
  rw [inColumns, inColumns, hany, hany, hcolumns]

end Agree

end Responses

end SurveyTables
