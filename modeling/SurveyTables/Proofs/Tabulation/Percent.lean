import SurveyTables.Proofs.Table.Percent
import SurveyTables.Proofs.Tabulation.Bases

/-!
# Column percentages of tables that are made

* `HasBaseRow`, `hasBaseRow`: the cells form a grid, and its last row is the only base row;
* `IsPercentOf`: the second table has the column percentages of the first;
* **`build_percent`**: every table that is made has column percentages, and these have none again.
-/

namespace SurveyTables

namespace Table

/-- The cells form a grid with a row for every row label and a cell in it for every column label. Its last
row is a base row, and no other row is. -/
structure HasBaseRow (t : Table Float) (base : Nat) : Prop where
  length_cells : t.cells.length = t.rows.length
  length_row : ∀ row ∈ t.cells, row.length = t.columns.length
  length_rows : t.rows.length = base + 1
  isBase_iff : ∀ x row, t.rows[x]? = some row → (row.isBase = true ↔ x = base)
  baseIndex?_eq : t.baseIndex? = some base

/-- The second table has the paths and kinds of the first, its texts and warnings, and its shape. It holds
percentages, except in the base row, which is that of the first. Every other cell is the cell of the first
divided by the cell of the base row in its column; it is empty if one of these is, or if the base is
zero. -/
structure IsPercentOf (p t : Table Float) (base : Nat) : Prop where
  map_rows : p.rows.map (fun l => (l.path, l.kind)) = t.rows.map fun l => (l.path, l.kind)
  columns_eq : p.columns = t.columns
  caption_eq : p.caption = t.caption
  warnings_eq : p.warnings = t.warnings
  map_length : p.cells.map List.length = t.cells.map List.length
  statistic_eq : p.statistic = .columnPercent
  statistic_row : ∀ x l, p.rows[x]? = some l →
    l.statistic = if x = base then .count else .columnPercent
  statistic_column : ∀ l ∈ p.columns, l.statistic = .count
  base_row : p.cells[base]? = t.cells[base]?
  cell_eq_some_iff : ∀ x y share, x ≠ base → (p.cell x y = some share ↔
    ∃ a b, t.cell x y = some a ∧ t.cell base y = some b ∧ b ≠ 0 ∧ b ≠ -0 ∧ share = a / b)

theorem bne_zero_iff {b : Float} : (b != 0) = true ↔ b ≠ 0 ∧ b ≠ -0 := by
  have hzero : (0 : Float) ≠ .nan := by decide
  have hminus : (-0 : Float) ≠ .nan := by decide
  have hbeq : (b == 0) = true ↔ b = 0 ∨ b = -0 := by
    rw [Float.beq_iff_ne_nan_and_eq]
    constructor
    · rintro ⟨-, -, h | ⟨h, -⟩ | ⟨h, -⟩⟩
      · exact .inl h
      · exact .inl h
      · exact .inr h
    · rintro (rfl | rfl)
      · exact ⟨hzero, hzero, .inl rfl⟩
      · exact ⟨hminus, hzero, .inr (.inr ⟨rfl, rfl⟩)⟩
  rw [bne, Bool.not_eq_true', ← Bool.not_eq_true, hbeq, not_or]

variable {t : Table Float} {base : Nat}

theorem HasBaseRow.exists_row (h : HasBaseRow t base) :
    ∃ row, t.rows[base]? = some row ∧ row.kind = .base := by
  have hlt : base < t.rows.length := by
    rw [h.length_rows]
    exact Nat.lt_succ_self base
  have hrow := List.getElem?_eq_getElem hlt
  exact ⟨_, hrow, beq_iff_eq.mp ((h.isBase_iff _ _ hrow).mpr rfl)⟩

theorem HasBaseRow.isPercentOf (h : HasBaseRow t base) (hrows : ∀ l ∈ t.rows, l.statistic = .count)
    (hcolumns : ∀ l ∈ t.columns, l.statistic = .count) : IsPercentOf (t.toPercent base) t base where
  map_rows := by
    rw [toPercent, List.map_map]
    exact List.map_congr_left fun l _ => Prod.ext (path_percentLabel l) (kind_percentLabel l)
  columns_eq := rfl
  caption_eq := rfl
  warnings_eq := rfl
  map_length := by
    have hlt : base < t.cells.length := by
      rw [h.length_cells, h.length_rows]
      exact Nat.lt_succ_self base
    refine map_length_toPercent fun row hrow => ?_
    rw [List.getElem?_eq_getElem hlt, Option.getD_some, h.length_row row hrow,
      h.length_row _ (List.getElem_mem hlt)]
  statistic_eq := rfl
  statistic_row x l hx := by
    rw [toPercent, List.getElem?_map, Option.map_eq_some_iff] at hx
    obtain ⟨l, hx, rfl⟩ := hx
    have hbase := h.isBase_iff x l hx
    split
    · next heq => rw [percentLabel, if_pos (hbase.mpr heq), hrows l (List.mem_of_getElem? hx)]
    · next hne => rw [percentLabel, if_neg (mt hbase.mp hne)]
  statistic_column := hcolumns
  base_row := getElem?_toPercent_base t
  cell_eq_some_iff x y share hx := by
    rw [cell_toPercent hx, share?_eq_some_iff]
    simp only [bne_zero_iff, and_assoc]

end Table

namespace Tabulation

variable {r : Responses} {d : Design} {o : Options} {t : Table Float}

theorem hasBaseRow (hr : r.Valid) (h : Accepted r d o) (ht : t = tabulate r d o (weights r d o)) :
    t.HasBaseRow (basePlace r d o) := by
  obtain ⟨hrows, hcolumns, hcells⟩ := tabulate_eq hr h ht
  rw [labels_eq] at hrows hcolumns
  refine ⟨?_, ?_, ?_, ?_, ?_⟩
  · rw [hcells, hrows, List.length_map, List.length_map]
  · intro row hrow
    rw [hcells, List.mem_map] at hrow
    obtain ⟨_, -, rfl⟩ := hrow
    rw [hcolumns, List.length_map, List.length_map]
  · rw [hrows, List.length_map, length_tableRows]
  · intro x row hx
    rw [hrows, List.getElem?_map, Option.map_eq_some_iff] at hx
    obtain ⟨p, hp, rfl⟩ := hx
    exact isBase_label_iff hp
  · rw [tableRows, List.map_append, List.map_singleton] at hrows
    rw [baseIndex?_of_last hrows rfl, List.length_map]
    rfl

theorem statistic_of_mem_labels {entries : List (Line × Path)} {l : Label} (hl : l ∈ labels entries) :
    l.statistic = .count := by
  rw [labels_eq, List.mem_map] at hl
  obtain ⟨entry, -, rfl⟩ := hl
  rfl

/-- **Column percentages.** The base row stays, and every other cell is divided by the base of its column if
both are there and the base is no zero; else it is empty. -/
theorem build_percent (hr : r.Reachable) (hb : build r d o = .ok t) :
    ∃ base p, t.HasBaseRow base ∧ t.percent = .ok p ∧ p.IsPercentOf t base ∧
      p.percent = .error .alreadyPercent := by
  obtain ⟨h, ht⟩ := build_eq_ok_iff.mp hb
  obtain ⟨hrows, hcolumns, -⟩ := tabulate_eq hr.valid h ht
  have hbase := hasBaseRow hr.valid h ht
  have hcount : t.statistic ≠ .columnPercent := by
    rw [ht]
    exact Statistic.noConfusion
  refine ⟨_, _, hbase, Table.percent_of_baseIndex hcount hbase.baseIndex?_eq,
    hbase.isPercentOf (fun l hl => ?_) (fun l hl => ?_), Table.percent_of_columnPercent rfl⟩
  · rw [hrows] at hl
    exact statistic_of_mem_labels hl
  · rw [hcolumns] at hl
    exact statistic_of_mem_labels hl

/-! ## The percentages of a sample -/

theorem cell_sample {x y : Nat} {row column : Line × Path}
    (hx : (tableRows sample sampleDesign sampleOptions)[x]? = some row)
    (hy : (tableColumns sample sampleDesign sampleOptions)[y]? = some column) :
    sampleTable.cell x y = (counts sample sampleDesign sampleOptions)[(row.1, column.1)]? :=
  cell_eq reachable_sample accepted_sample rfl hx hy

theorem getElem?_tableColumns_sample :
    (tableColumns sample sampleDesign sampleOptions)[0]? = some (.data 0 0, [("pet", "dog")]) := by
  rw [tableColumns_sample]
  rfl

theorem mem_sorted_sex : ({ key := "sex::f", answers := [.text "f"] }, 0) ∈
    (classes sample (sample.includes sampleDesign sampleOptions) ["sex"]).sorted := by
  rw [sorted_sex]
  exact List.mem_singleton_self _

theorem mem_sorted_pet : ({ key := "pet::dog", answers := [.text "dog"] }, 0) ∈
    (classes sample (sample.includes sampleDesign sampleOptions) ["pet"]).sorted := by
  rw [sorted_pet]
  exact List.mem_singleton_self _

theorem basePlace_sample : basePlace sample sampleDesign sampleOptions = 1 := by
  have hlength := length_tableRows (r := sample) (d := sampleDesign) (o := sampleOptions)
  rw [tableRows_sample] at hlength
  exact (Nat.succ.inj hlength).symm

theorem hasBaseRow_sample : sampleTable.HasBaseRow 1 :=
  basePlace_sample ▸ hasBaseRow reachable_sample.valid accepted_sample rfl

theorem data_cell_sample : sampleTable.cell 0 0 = some 2.0 := by
  have hrow : (tableRows sample sampleDesign sampleOptions)[0]? = some (.data 0 0, [("sex", "f")]) := by
    rw [tableRows_sample]
    rfl
  rw [cell_sample hrow getElem?_tableColumns_sample, getElem?_counts,
    participants_data rfl mem_sorted_sex rfl mem_sorted_pet]
  decide

theorem base_cell_sample : sampleTable.cell 1 0 = some 2.0 := by
  rw [← basePlace_sample, cell_sample getElem?_basePlace getElem?_tableColumns_sample,
    getElem?_counts_base_data rfl mem_sorted_pet]
  decide

/-- All who show the texts of the column show those of the row. -/
theorem build_percent_sample : sample.Reachable ∧
    build sample sampleDesign sampleOptions = .ok sampleTable ∧
    ∃ p, sampleTable.percent = .ok p ∧ p.cell 0 0 = some 1.0 ∧ p.cell 1 0 = some 2.0 ∧
      p.percent = .error .alreadyPercent := by
  obtain ⟨base, p, hbase, hp, hpercent, hagain⟩ := build_percent reachable_sample build_sample
  obtain rfl : base = 1 :=
    Option.some.inj (hbase.baseIndex?_eq.symm.trans hasBaseRow_sample.baseIndex?_eq)
  refine ⟨reachable_sample, build_sample, p, hp, ?_, ?_, hagain⟩
  · have hshare : (1.0 : Float) = 2.0 / 2.0 := by decide +kernel
    exact (hpercent.cell_eq_some_iff 0 0 1.0 (by decide)).mpr
      ⟨2.0, 2.0, data_cell_sample, base_cell_sample, by decide, by decide, hshare⟩
  · rw [Table.cell, hpercent.base_row]
    exact base_cell_sample

end Tabulation

end SurveyTables
