import SurveyTables.Proofs.Responses.Selection
import SurveyTables.Proofs.Tabulation.Agreement
import SurveyTables.Proofs.Tabulation.Layout

/-!
# What a table does not hang on

A table hangs on the included respondents and on the variables that the request refers to, and on nothing
else: it stays the same when other respondents and columns are taken out.

* `Selects.agree`: those who stay said what they said before;
* `Selects.filterMap_range`: what is listed of the included respondents is listed as before;
* `entries_classes_eq`, `mark?_classes_eq`, `getElem?_counts_eq_of_selects`: so the classes, the classes
  of those who stay and the tally are as before;
* `tabulate_of_selects`, **`build_of_kept`**: and so is the table.
-/

namespace SurveyTables

open Tabulation

attribute [ext] Table

variable {r r' : Responses} {d : Design} {o : Options} {stays : Nat → Bool}

namespace Responses

namespace Selects

variable (h : Selects r r' stays (referenced d o))
include h

theorem agree {k k' : Nat} (hk : (r.staying stays)[k']? = some k) : Agree r r' d o k k' :=
  fun id hid => h.answer id hid k k' hk

/-! ## The included respondents -/

variable (hstays : ∀ k < r.respondents, r.includes d o k = true → stays k = true)

omit h in
theorem filterMap_staying {α : Type} {f : Nat → Option α}
    (hgone : ∀ k < r.respondents, stays k = false → f k = none) :
    (r.staying stays).filterMap f = (List.range r.respondents).filterMap f := by
  rw [staying, List.filterMap_filter]
  apply List.filterMap_congr
  intro k hk
  by_cases hs : stays k = true
  · rw [if_pos hs]
  · rw [if_neg hs, hgone k (List.mem_range.mp hk) (by simpa using hs)]

theorem filterMap_range {α : Type} {f f' : Nat → Option α}
    (hsame : ∀ k k', (r.staying stays)[k']? = some k → f' k' = f k)
    (hgone : ∀ k < r.respondents, stays k = false → f k = none) :
    (List.range r'.respondents).filterMap f' = (List.range r.respondents).filterMap f := by
  have hmap : (List.range r'.respondents).map f' = (r.staying stays).map f := by
    rw [h.respondents]
    exact map_range_length hsame
  calc (List.range r'.respondents).filterMap f'
      = ((List.range r'.respondents).map f').filterMap id := by rw [List.filterMap_map]; rfl
    _ = ((r.staying stays).map f).filterMap id := by rw [hmap]
    _ = (r.staying stays).filterMap f := by rw [List.filterMap_map]; rfl
    _ = (List.range r.respondents).filterMap f := filterMap_staying hgone

include hstays

omit h in
theorem includes_of_not_stays {k : Nat} (hk : k < r.respondents) (hs : stays k = false) :
    r.includes d o k = false := by
  cases hi : r.includes d o k with
  | false => rfl
  | true =>
    rw [hstays k hk hi] at hs
    exact nomatch hs

theorem entries_classes_eq {axis : Axis} {g : Group} (hg : g ∈ d.groups axis) :
    (classes r' (r'.includes d o) g).entries = (classes r (r.includes d o) g).entries := by
  apply GroupKeys.entries_ofAnswers_congr
  rw [classAnswers, classAnswers, List.filterMap_map, List.filterMap_map]
  apply h.filterMap_range
  · intro k k' hk
    simp only [Function.comp_apply, id_eq, (h.agree hk).includes_eq, (h.agree hk).answersAll_eq hg,
      (h.agree hk).answers_eq hg]
  · intro k hk hs
    simp only [Function.comp_apply, id_eq, includes_of_not_stays hstays hk hs, Bool.false_and,
      Bool.false_eq_true, if_false]

theorem mark?_classes_eq {axis : Axis} {g : Group} (hg : g ∈ d.groups axis) {k k' : Nat}
    (hk : (r.staying stays)[k']? = some k) :
    (classes r' (r'.includes d o) g).mark? k' = (classes r (r.includes d o) g).mark? k := by
  have hlt : k < r.respondents :=
    List.mem_range.mp (List.mem_filter.mp (List.mem_of_getElem? hk)).1
  have hlt' : k' < r'.respondents := by
    rw [h.respondents]
    exact (List.getElem?_eq_some_iff.mp hk).1
  rw [(numbers_classes r' _ g).mark?_eq, (numbers_classes r _ g).mark?_eq,
    h.entries_classes_eq hstays hg, classAnswers, classAnswers, List.getElem?_map,
    List.getElem?_map, List.getElem?_range hlt, List.getElem?_range hlt', Option.map_some,
    Option.map_some, (h.agree hk).includes_eq, (h.agree hk).answersAll_eq hg, (h.agree hk).answers_eq hg]

theorem dataLines_eq (axis : Axis) {k k' : Nat} (hk : (r.staying stays)[k']? = some k) :
    dataLines ((d.groups axis).map (classes r' (r'.includes d o))) k' =
      dataLines ((d.groups axis).map (classes r (r.includes d o))) k := by
  rw [dataLines, dataLines, List.zipIdx_map, List.zipIdx_map, List.filterMap_map,
    List.filterMap_map]
  apply List.filterMap_congr
  intro entry hentry
  have hg := List.mem_of_getElem? (List.mem_zipIdx_iff_getElem?.mp hentry)
  simp only [Function.comp_apply, Prod.map_fst, Prod.map_snd, id_eq,
    h.mark?_classes_eq hstays hg hk]

theorem weights_participants_eq (row column : Line) :
    (participants r' d o row column).map (r'.weightIn o) =
      (participants r d o row column).map (r.weightIn o) := by
  rw [participants, participants, map_filter_eq_filterMap, map_filter_eq_filterMap]
  apply h.filterMap_range
  · intro k k' hk
    have hrows : rowLines (d.rows.map (classes r' (r'.includes d o))) k' =
        rowLines (d.rows.map (classes r (r.includes d o))) k :=
      congrArg (Line.base :: ·) (h.dataLines_eq hstays .rows hk)
    have hcolumns : columnLines o.columnTotal (d.columns.map (classes r' (r'.includes d o))) k' =
        columnLines o.columnTotal (d.columns.map (classes r (r.includes d o))) k :=
      congrArg (_ ++ ·) (h.dataLines_eq hstays .columns hk)
    rw [hrows, hcolumns, (h.agree hk).includes_eq, (h.agree hk).weightIn_eq]
  · intro k hk hs
    simp only [includes_of_not_stays hstays hk hs, Bool.false_and, Bool.false_eq_true, if_false]

/-- **The tally is the same.** -/
theorem getElem?_counts_eq_of_selects (row column : Line) :
    (counts r' d o)[(row, column)]? = (counts r d o)[(row, column)]? := by
  rw [getElem?_counts_eq, getElem?_counts_eq, h.weights_participants_eq hstays]

/-! ## The table -/

theorem sorted_classes_eq {axis : Axis} {g : Group} (hg : g ∈ d.groups axis) :
    (classes r' (r'.includes d o) g).sorted = (classes r (r.includes d o) g).sorted := by
  rw [GroupKeys.sorted, GroupKeys.sorted, h.entries_classes_eq hstays hg]

theorem classLines_eq (axis : Axis) :
    classLines r' (r'.includes d o) (d.groups axis) =
      classLines r (r.includes d o) (d.groups axis) := by
  unfold classLines
  apply List.flatMap_congr
  intro entry hentry
  have hg := List.mem_of_getElem? (List.mem_zipIdx_iff_getElem?.mp hentry)
  rw [h.sorted_classes_eq hstays hg]

theorem dataEntries_eq (axis : Axis) :
    dataEntries ((d.groups axis).map (classes r' (r'.includes d o))) =
      dataEntries ((d.groups axis).map (classes r (r.includes d o))) := by
  rw [dataEntries, dataEntries, List.zipIdx_map, List.zipIdx_map, List.flatMap_map,
    List.flatMap_map]
  apply List.flatMap_congr
  intro entry hentry
  have hg := List.mem_of_getElem? (List.mem_zipIdx_iff_getElem?.mp hentry)
  simp only [Prod.map_fst, Prod.map_snd, h.sorted_classes_eq hstays hg, id_eq]

theorem tableColumns_eq : tableColumns r' d o = tableColumns r d o := by
  have hcolumns := h.classLines_eq hstays .columns
  simp only [Design.groups] at hcolumns
  rw [tableColumns, tableColumns, hcolumns]

theorem tableRows_eq : tableRows r' d o = tableRows r d o := by
  have hrows := h.classLines_eq hstays .rows
  have hcolumns := h.dataEntries_eq hstays .columns
  simp only [Design.groups] at hrows hcolumns
  have hkept : ∀ row, isKept r' d o row = isKept r d o row := by
    intro row
    rw [isKept, isKept, keyedColumns, keyedColumns, columnEntries, columnEntries, hcolumns]
    simp only [Std.HashMap.contains_eq_isSome_getElem?, h.getElem?_counts_eq_of_selects hstays]
  simp only [tableRows, hrows, hkept]

omit hstays in
theorem accepted_iff : Accepted r' d o ↔ Accepted r d o :=
  ⟨fun ha => ha.of_contains fun id hid => (h.contains id hid).symm,
    fun ha => ha.of_contains h.contains⟩

/-- **The table is the same.** -/
theorem tabulate_of_selects (hr : r.Valid) (hr' : r'.Valid) (ha : Accepted r d o) :
    tabulate r' d o (weights r' d o) = tabulate r d o (weights r d o) := by
  have ha' := h.accepted_iff.mpr ha
  obtain ⟨hrows, hcolumns, hcells⟩ := tabulate_eq hr ha rfl
  obtain ⟨hrows', hcolumns', hcells'⟩ := tabulate_eq hr' ha' rfl
  have hwarnings := warnings_tabulate hr ha
  have hwarnings' := warnings_tabulate hr' ha'
  rw [h.tableRows_eq hstays] at hrows' hcells'
  rw [h.tableColumns_eq hstays] at hcolumns' hcells'
  simp only [h.getElem?_counts_eq_of_selects hstays] at hcells'
  exact Table.ext (hrows'.trans hrows.symm) (hcolumns'.trans hcolumns.symm)
    (hcells'.trans hcells.symm) rfl rfl (hwarnings'.trans hwarnings.symm)

end Selects

end Responses

namespace Tabulation

open Responses

/-- **A table does not hang on other respondents and columns**: those who are not included, and those that
are neither on an axis nor the weight. -/
theorem build_of_kept {t : Table Float} (hr : r.Reachable) (hb : build r d o = .ok t)
    (columnStays : String → Bool) (stays : Nat → Bool)
    (hvariables : ∀ id ∈ d.variableIds, columnStays id = true)
    (hweight : ∀ id, o.weight = some id → columnStays id = true)
    (hstays : ∀ k < r.respondents, r.includes d o k = true → stays k = true) :
    (∃ r', ofColumns (r.kept columnStays stays) = .ok r' ∧ r'.Reachable ∧
      r'.columns.toList = r.kept columnStays stays) ∧
    ∀ r' : Responses, r'.Reachable → r'.columns.toList = r.kept columnStays stays →
      build r' d o = .ok t := by
  obtain ⟨ha, rfl⟩ := build_eq_ok_iff.mp hb
  refine ⟨hr.valid.exists_responses_of_kept columnStays stays, fun r' hr' hcolumns => ?_⟩
  · have hids : ∀ id ∈ referenced d o, columnStays id = true := by
      intro id hid
      rw [referenced, List.mem_append, Option.mem_toList] at hid
      exact hid.elim (hvariables id) (hweight id)
    have h := hr.valid.selects_kept hr'.valid hcolumns hids ha.exists_referenced
    exact build_eq_ok_iff.mpr
      ⟨h.accepted_iff.mpr ha, (h.tabulate_of_selects hstays hr.valid hr'.valid ha).symm⟩

/-- One variable of the sample against itself. -/
def sexDesign : Design where
  rows := [["sex"]]
  columns := [["sex"]]

theorem accepted_sexDesign : Accepted sample sexDesign {} :=
  accepted_of_sampleIds (by decide) (by decide) (by intro axis; cases axis <;> decide) rfl

/-- The third respondent said nothing about the only variable of the table. -/
theorem build_of_kept_sample : ∃ t r', build sample sexDesign {} = .ok t ∧
    ofColumns (sample.kept (· == "sex") (· < 2)) = .ok r' ∧
    r'.columns.toList = [{ id := "sex", answers := #[.text "f", .text "f"] }] ∧
    build r' sexDesign {} = .ok t := by
  have hb := build_eq_ok_iff.mpr ⟨accepted_sexDesign, rfl⟩
  obtain ⟨⟨r', hok, hr', hcolumns⟩, hbuild⟩ :=
    build_of_kept reachable_sample hb (· == "sex") (· < 2) (by decide) (by simp) (by decide)
  exact ⟨_, r', hb, hok, hcolumns.trans (by decide), hbuild r' hr' hcolumns⟩

end Tabulation

end SurveyTables
