import SurveyTables.Proofs.Tabulation.StackedGroups
import SurveyTables.Proofs.Tabulation.TotalColumn

/-!
# Transposed tables

Rows and columns are not treated alike: who is included hangs on the rows alone. But whoever is counted in
a cell has answered a group of either axis, and is included whichever of the two are the rows.

* `Design.transposed`: a design with its rows and columns exchanged;
* `exists_groups_of_hasCell`: the numbers of a table stand in rows and columns of its groups;
* `counted_transposed`: the same respondents show the texts of two groups;
* **`build_transposed`**: the transposed table has the same numbers under the same pairs.
-/

namespace SurveyTables

/-- The design with its columns as rows and its rows as columns. -/
def Design.transposed (d : Design) : Design :=
  { d with rows := d.columns, columns := d.rows }

namespace Tabulation

open Responses

variable {r : Responses} {d : Design} {o : Options} {t : Table Float} {i j : Nat} {g h : Group}

theorem Accepted.transposed (ha : Accepted r d o) : Accepted r d.transposed o where
  rows_ne_nil := ha.columns_ne_nil
  columns_ne_nil := ha.rows_ne_nil
  group axis := by
    cases axis with
    | rows => exact ha.group .columns
    | columns => exact ha.group .rows
    | additional => exact ha.group .additional
  weight := ha.weight

/-! ## Groups of cells -/

theorem exists_group_of_mem_dataLabels {gs : List Group} {texts : Group → List (List String)}
    {depth : Nat} {l : Label} (hl : l ∈ dataLabels depth gs texts) (hi : l.kind = .data i) :
    ∃ g, gs[i]? = some g := by
  obtain ⟨j, g, hj, ts, -, rfl⟩ := mem_dataLabels.mp hl
  obtain rfl : j = i := Label.Kind.data.inj hi
  exact ⟨g, hj⟩

theorem exists_groups_of_hasCell (hr : r.Valid) (ha : Accepted r d o)
    (ht : t = tabulate r d o (weights r d o)) {p q : Path} {x : Float} (h : t.HasCell i j p q x) :
    ∃ g h, d.rows[i]? = some g ∧ d.columns[j]? = some h := by
  rw [Table.HasCell, Table.part_eq (cells_eq hr ha ht)] at h
  obtain ⟨_, hpart, -, hcell⟩ := h
  obtain ⟨row, hmem, rfl⟩ := List.mem_map.mp hpart
  obtain ⟨column, hmem', -⟩ := List.mem_map.mp hcell
  obtain ⟨hrow, hi⟩ := List.mem_filter.mp hmem
  obtain ⟨hcolumn, hj⟩ := List.mem_filter.mp hmem'
  have hi : row.kind = .data i := beq_iff_eq.mp hi
  have hj : column.kind = .data j := beq_iff_eq.mp hj
  obtain ⟨g, hg⟩ := exists_group_of_mem_dataLabels (mem_dataLabels_of_mem_rows hr ha ht hrow hi) hi
  obtain ⟨h, hh⟩ :=
    exists_group_of_mem_dataLabels (mem_dataLabels_of_mem_columns hr ha ht hcolumn hj) hj
  exact ⟨g, h, hg, hh⟩

/-! ## The same respondents -/

/-- Of those who have answered a row group and a column group, the same are included if rows and columns
are exchanged. -/
theorem counted_transposed (hg : g ∈ d.rows) (hgne : g ≠ []) (hh : h ∈ d.columns) (hhne : h ≠ [])
    (ts us : List String) :
    r.counted d o g ts h us = r.counted d.transposed o h us g ts := by
  unfold counted
  congr 1
  funext k
  rw [Bool.and_comm (r.shows g ts k)]
  cases hboth : r.shows h us k && r.shows g ts k with
  | false => rw [Bool.and_false, Bool.and_false]
  | true =>
    obtain ⟨hcolumn, hrow⟩ := (Bool.and_eq_true _ _).mp hboth
    have hh : h ∈ d.transposed.rows := hh
    rw [includes_of_answersAll hg hgne (shows_iff.mp hrow).1,
      includes_of_answersAll hh hhne (shows_iff.mp hcolumn).1]

/-- **A transposed table has the same numbers** under the same pairs. -/
theorem build_transposed (hr : r.Reachable) (hb : build r d o = .ok t) :
    ∃ s, build r d.transposed o = .ok s ∧
      ∀ i j p q x, t.HasCell i j p q x ↔ s.HasCell j i q p x := by
  obtain ⟨ha, ht⟩ := build_eq_ok_iff.mp hb
  have ha' := ha.transposed
  refine ⟨_, build_eq_ok_iff.mpr ⟨ha', rfl⟩, fun i j p q x => ?_⟩
  -- both sides are about the same two groups, if there are such groups at all
  suffices hsame : ∀ g h, d.rows[i]? = some g → d.columns[j]? = some h →
      (t.HasCell i j p q x ↔
        (tabulate r d.transposed o (weights r d.transposed o)).HasCell j i q p x) by
    constructor
    · intro hcell
      obtain ⟨g, h, hi, hj⟩ := exists_groups_of_hasCell hr.valid ha ht hcell
      exact (hsame g h hi hj).mp hcell
    · intro hcell
      obtain ⟨h, g, hj, hi⟩ := exists_groups_of_hasCell hr.valid ha' rfl hcell
      exact (hsame g h hi hj).mpr hcell
  intro g h hi hj
  have hg := List.mem_of_getElem? hi
  have hh := List.mem_of_getElem? hj
  rw [hasCell_iff hr.valid ha ht hi hj, hasCell_iff hr.valid ha' rfl hj hi]
  simp only [counted_transposed hg (ha.group .rows g hg).1 hh (ha.group .columns h hh).1]
  constructor
  · rintro ⟨ts, us, hp, hq, hx⟩
    exact ⟨us, ts, hq, hp, hx⟩
  · rintro ⟨us, ts, hq, hp, hx⟩
    exact ⟨ts, us, hp, hq, hx⟩

/-- The table with the second variable on the rows includes one respondent more, and has the same
number. -/
theorem build_transposed_sample : ∃ t s, sample.Reachable ∧ build sample sampleDesign {} = .ok t ∧
    build sample petDesign {} = .ok s ∧
    sample.includedRespondents sampleDesign {} = [0, 1] ∧
    sample.includedRespondents petDesign {} = [0, 1, 2] ∧
    t.HasCell 0 0 [("sex", "f")] [("pet", "dog")] 2.0 ∧
    s.HasCell 0 0 [("pet", "dog")] [("sex", "f")] 2.0 := by
  have hb := build_eq_ok_iff.mpr ⟨accepted_sample_total, rfl⟩
  obtain ⟨s, hs, hcells⟩ := build_transposed reachable_sample hb
  have hcell := (hasCell_iff reachable_sample.valid accepted_sample_total rfl
    (i := 0) (j := 0) rfl rfl [("sex", "f")] [("pet", "dog")] 2.0).mpr
    ⟨["f"], ["dog"], rfl, rfl, by decide⟩
  exact ⟨_, s, reachable_sample, hb, hs, by decide, by decide, hcell, (hcells _ _ _ _ _).mp hcell⟩

end Tabulation

end SurveyTables
