import SurveyTables.Proofs.Tabulation.Cells

/-!
# Bases and totals

* `Responses.includedRespondents`, `Responses.showing`, `Responses.weigh`: the respondents of a base, and their
  weights added up;
* `getElem?_counts_base_total`, `getElem?_counts_base_data`, `getElem?_counts_data_total`: what the tally
  has for them;
* `tableColumns_cases`: a column is the total column or that of a class;
* `HasBases`, **`build_bases`**: the grid of cells is rectangular, the base row closes it and has a cell in
  every column, and the total column has a cell in every row.
-/

namespace SurveyTables

namespace Responses

/-- The included respondents. -/
def includedRespondents (r : Responses) (d : Design) (o : Options) : List Nat :=
  (List.range r.respondents).filter (r.includes d o)

/-- The included respondents who show the texts for the group. -/
def showing (r : Responses) (d : Design) (o : Options) (g : Group) (ts : List String) : List Nat :=
  (List.range r.respondents).filter fun k => r.includes d o k && r.shows g ts k

/-- The weights of the respondents added up in order from 0. -/
def weigh (r : Responses) (o : Options) (respondents : List Nat) : Float :=
  (respondents.map (r.weightIn o)).foldl (· + ·) 0.0

theorem total_of_ne_nil {r : Responses} {o : Options} {respondents : List Nat}
    (h : respondents ≠ []) : r.total o respondents = some (r.weigh o respondents) := by
  rw [total, if_neg (by simpa using h), weigh]

end Responses

namespace Tabulation

open Responses

variable {r : Responses} {d : Design} {o : Options} {t : Table Float}

/-! ## Bases and totals of the tally -/

theorem showing_ne_nil {g : Group} {c : KeyEntry × Nat}
    (hc : c ∈ (classes r (r.includes d o) g).sorted) :
    r.showing d o g (c.1.answers.map Answer.display) ≠ [] := by
  obtain ⟨k, hk, hincluded, hshows⟩ := exists_class_iff.mp ⟨c, hc, rfl⟩
  apply List.ne_nil_of_mem (a := k)
  rw [showing, List.mem_filter, List.mem_range, Bool.and_eq_true]
  exact ⟨hk, hincluded, hshows⟩

theorem getElem?_counts_base_total (ho : o.columnTotal = true) :
    (counts r d o)[(Line.base, Line.total)]? = some (r.weigh o (r.includedRespondents d o)) := by
  have hall : participants r d o .base .total =
      (List.range r.respondents).filter fun k => r.includes d o k && (true && true) :=
    participants_eq_filter (fun k _ _ => iff_of_true base_mem_rowLines rfl)
      fun k _ _ => iff_of_true (total_mem_columnLines.mpr ho) rfl
  simp only [Bool.and_true] at hall
  rw [getElem?_counts_eq, if_pos ⟨rfl, rfl⟩, Tally.sumFrom_some, hall]
  rfl

theorem getElem?_counts_base_data {j : Nat} {h : Group} {c : KeyEntry × Nat}
    (hj : d.columns[j]? = some h) (hc : c ∈ (classes r (r.includes d o) h).sorted) :
    (counts r d o)[(Line.base, Line.data j c.2)]? =
      some (r.weigh o (r.showing d o h (c.1.answers.map Answer.display))) := by
  have hall : participants r d o .base (.data j c.2) = (List.range r.respondents).filter fun k =>
      r.includes d o k && (true && r.shows h (c.1.answers.map Answer.display) k) :=
    participants_eq_filter (fun k _ _ => iff_of_true base_mem_rowLines rfl)
      fun k hk hincluded => data_mem_columns_of_included hj hc hk hincluded
  simp only [Bool.true_and] at hall
  rw [getElem?_counts_of_ne (by simp), hall]
  exact total_of_ne_nil (showing_ne_nil hc)

theorem getElem?_counts_data_total (ho : o.columnTotal = true) {i : Nat} {g : Group}
    {c : KeyEntry × Nat} (hi : d.rows[i]? = some g)
    (hc : c ∈ (classes r (r.includes d o) g).sorted) :
    (counts r d o)[(Line.data i c.2, Line.total)]? =
      some (r.weigh o (r.showing d o g (c.1.answers.map Answer.display))) := by
  have hall : participants r d o (.data i c.2) .total = (List.range r.respondents).filter fun k =>
      r.includes d o k && (r.shows g (c.1.answers.map Answer.display) k && true) :=
    participants_eq_filter (fun k hk hincluded => data_mem_rows_of_included hi hc hk hincluded)
      fun k _ _ => iff_of_true (total_mem_columnLines.mpr ho) rfl
  simp only [Bool.and_true] at hall
  rw [getElem?_counts_of_ne (by simp), hall]
  exact total_of_ne_nil (showing_ne_nil hc)

/-! ## The lines of the base row and the total column -/

theorem exists_kind_of_mem_classLines {included : Nat → Bool} {gs : List Group}
    {entry : Line × Path} (he : entry ∈ classLines r included gs) :
    ∃ i, entry.1.kind = .data i := by
  unfold classLines at he
  rw [List.mem_flatMap] at he
  obtain ⟨g, -, he⟩ := he
  obtain ⟨c, -, rfl⟩ := List.mem_map.mp he
  exact ⟨g.2, rfl⟩

theorem mem_tableColumns {entry : Line × Path} (he : entry ∈ tableColumns r d o) :
    (o.columnTotal = true ∧ entry.1 = .total) ∨ entry ∈ classLines r (r.includes d o) d.columns := by
  rw [tableColumns, List.mem_append] at he
  refine he.imp_left fun he => ?_
  cases ho : o.columnTotal with
  | false => simp [ho] at he
  | true =>
    rw [ho, if_pos rfl, List.mem_singleton] at he
    exact ⟨rfl, by rw [he]⟩

/-- The place of the base row, which is behind the rows of classes. -/
def basePlace (r : Responses) (d : Design) (o : Options) : Nat :=
  ((classLines r (r.includes d o) d.rows).filter fun row => isKept r d o row.1).length

theorem length_tableRows : (tableRows r d o).length = basePlace r d o + 1 := by
  rw [tableRows, List.length_append, List.length_singleton, basePlace]

theorem getElem?_basePlace :
    (tableRows r d o)[basePlace r d o]? = some (.base, [(baseId, Statistic.count.marker)]) :=
  List.getElem?_concat_length

theorem isBase_label_iff {x depth : Nat} {entry : Line × Path}
    (hx : (tableRows r d o)[x]? = some entry) :
    (label depth entry).isBase = true ↔ x = basePlace r d o := by
  constructor
  · intro hbase
    by_contra hne
    have hlt : x < basePlace r d o := by
      have := (List.getElem?_eq_some_iff.mp hx).1
      rw [length_tableRows] at this
      omega
    rw [tableRows, List.getElem?_append_left hlt] at hx
    have hmem := (List.mem_filter.mp (List.mem_of_getElem? hx)).1
    obtain ⟨i, hi⟩ := exists_kind_of_mem_classLines hmem
    rw [Label.isBase, beq_iff_eq, label, hi] at hbase
    contradiction
  · rintro rfl
    rw [getElem?_basePlace] at hx
    rw [← Option.some.inj hx]
    rfl

theorem baseIndex?_of_last {rows : List Label} {l : Label} (hrows : t.rows = rows ++ [l])
    (hl : l.isBase = true) : t.baseIndex? = some rows.length := by
  rw [Table.baseIndex?, hrows, List.reverse_append, List.reverse_singleton, List.singleton_append,
    List.findIdx?_cons, if_pos hl, List.length_append, List.length_singleton]
  rfl

/-! ## The grid of cells -/

/-- The cells of a table form a grid, which the base row closes. The base row has a cell in every
column: the total of all included respondents, or of those who show the texts of the column. The total
column has a cell in every row of a class: the total of those who show the texts of the row. -/
structure HasBases (r : Responses) (d : Design) (o : Options) (t : Table Float) (base : Nat) :
    Prop where
  length_cells : t.cells.length = t.rows.length
  length_row : ∀ row ∈ t.cells, row.length = t.columns.length
  length_rows : t.rows.length = base + 1
  isBase_iff : ∀ x row, t.rows[x]? = some row → (row.isBase = true ↔ x = base)
  baseIndex_eq : t.baseIndex? = some base
  base_cell : ∀ y column, t.columns[y]? = some column →
    (o.columnTotal = true ∧ column.kind = .total ∧
      t.cell base y = some (r.weigh o (r.includedRespondents d o))) ∨
    ∃ j, column.kind = .data j ∧ d.columns[j]? = some column.ids ∧
      t.cell base y = some (r.weigh o (r.showing d o column.ids column.texts))
  total_column : o.columnTotal = true →
    ∃ column, t.columns[0]? = some column ∧ column.kind = .total
  total_cell : ∀ x row i y column, t.rows[x]? = some row → row.kind = .data i →
    t.columns[y]? = some column → column.kind = .total →
    d.rows[i]? = some row.ids ∧
      t.cell x y = some (r.weigh o (r.showing d o row.ids row.texts))
  base_covers : ∀ x y, (t.cell x y).isSome = true → (t.cell base y).isSome = true

section Grid

variable (hr : r.Reachable) (h : Accepted r d o) (ht : t = tabulate r d o (weights r d o))
include hr h ht

theorem cell_eq {x y : Nat} {row column : Line × Path} (hx : (tableRows r d o)[x]? = some row)
    (hy : (tableColumns r d o)[y]? = some column) :
    t.cell x y = (counts r d o)[(row.1, column.1)]? := by
  rw [Table.cell, (tabulate_eq hr.valid h ht).2.2, List.getElem?_map, hx, Option.map_some,
    Option.bind_some, List.getElem?_map, hy, Option.map_some, Option.join_some]

theorem base_cell_eq {y : Nat} {column : Label} (hy : t.columns[y]? = some column) :
    (o.columnTotal = true ∧ column.kind = .total ∧
      t.cell (basePlace r d o) y = some (r.weigh o (r.includedRespondents d o))) ∨
    ∃ j, column.kind = .data j ∧ d.columns[j]? = some column.ids ∧
      t.cell (basePlace r d o) y = some (r.weigh o (r.showing d o column.ids column.texts)) := by
  rw [(tabulate_eq hr.valid h ht).2.1, labels_eq, List.getElem?_map, Option.map_eq_some_iff] at hy
  obtain ⟨q, hq, rfl⟩ := hy
  rw [cell_eq hr h ht getElem?_basePlace hq]
  rcases mem_tableColumns (List.mem_of_getElem? hq) with ⟨ho, htotal⟩ | hclass
  · left
    rw [htotal]
    exact ⟨ho, by rw [label, htotal, Line.kind], getElem?_counts_base_total ho⟩
  · right
    obtain ⟨j, hj⟩ := exists_kind_of_mem_classLines hclass
    obtain ⟨hgroup, c, hc, hline, htexts⟩ :=
      exists_class_of_label hr.valid (fun g hg => (h.group .columns g hg).2) hclass _ hj
    rw [hline, getElem?_counts_base_data hgroup hc, htexts]
    exact ⟨j, hj, hgroup, rfl⟩

theorem total_cell_eq {x y i : Nat} {row column : Label} (hx : t.rows[x]? = some row)
    (hi : row.kind = .data i) (hy : t.columns[y]? = some column) (htotal : column.kind = .total) :
    d.rows[i]? = some row.ids ∧
      t.cell x y = some (r.weigh o (r.showing d o row.ids row.texts)) := by
  obtain ⟨hrows, hcolumns, -⟩ := tabulate_eq hr.valid h ht
  rw [hrows, labels_eq, List.getElem?_map, Option.map_eq_some_iff] at hx
  rw [hcolumns, labels_eq, List.getElem?_map, Option.map_eq_some_iff] at hy
  obtain ⟨p, hp, rfl⟩ := hx
  obtain ⟨q, hq, rfl⟩ := hy
  have hclass := mem_classLines_of_mem_tableRows (List.mem_of_getElem? hp) hi
  obtain ⟨hgroup, c, hc, hline, htexts⟩ :=
    exists_class_of_label hr.valid (fun g hg => (h.group .rows g hg).2) hclass _ hi
  rcases mem_tableColumns (List.mem_of_getElem? hq) with ⟨ho, hq'⟩ | hclass'
  · rw [cell_eq hr h ht hp hq, hline, hq', getElem?_counts_data_total ho hgroup hc, htexts]
    exact ⟨hgroup, rfl⟩
  · obtain ⟨j, hj⟩ := exists_kind_of_mem_classLines hclass'
    rw [label, hj] at htotal
    exact nomatch htotal

end Grid

/-- **Bases and totals.** The base row is the last one and has the total weight of all who belong to the
column; a total column has that of all who belong to the row. -/
theorem build_bases (hr : r.Reachable) (hb : build r d o = .ok t) :
    ∃ base, HasBases r d o t base := by
  obtain ⟨h, ht⟩ := build_eq_ok_iff.mp hb
  obtain ⟨hrows, hcolumns, hcells⟩ := tabulate_eq hr.valid h ht
  rw [labels_eq] at hrows hcolumns
  have hbase (y : Nat) (column : Label) (hy : t.columns[y]? = some column) :=
    base_cell_eq hr h ht hy
  refine ⟨basePlace r d o, ?_, ?_, ?_, ?_, ?_, hbase, ?_, ?_, ?_⟩
  · rw [hcells, hrows, List.length_map, List.length_map]
  · intro row hrow
    rw [hcells, List.mem_map] at hrow
    obtain ⟨_, -, rfl⟩ := hrow
    rw [hcolumns, List.length_map, List.length_map]
  · rw [hrows, List.length_map, length_tableRows]
  · intro x row hx
    rw [hrows, List.getElem?_map, Option.map_eq_some_iff] at hx
    obtain ⟨p, hp, rfl⟩ := hx
    exact isBase_label_iff hp
  · rw [tableRows, List.map_append, List.map_singleton] at hrows
    rw [baseIndex?_of_last hrows rfl, List.length_map]
    rfl
  · intro ho
    rw [hcolumns, tableColumns, if_pos ho]
    exact ⟨_, rfl, rfl⟩
  · intro x row i y column hx hi hy htotal
    exact total_cell_eq hr h ht hx hi hy htotal
  · intro x y hcell
    cases hy : t.columns[y]? with
    | none =>
      -- there is no cell behind the last column
      rw [hcolumns, List.getElem?_map, Option.map_eq_none_iff] at hy
      rw [Table.cell, hcells, List.getElem?_map] at hcell
      cases hx : (tableRows r d o)[x]? with
      | none => simp [hx] at hcell
      | some p => simp [hx, hy] at hcell
    | some column =>
      rcases hbase y column hy with ⟨-, -, hsome⟩ | ⟨j, -, -, hsome⟩
      · rw [hsome, Option.isSome_some]
      · rw [hsome, Option.isSome_some]

theorem accepted_sample_total : Accepted sample sampleDesign {} where
  rows_ne_nil := accepted_sample.rows_ne_nil
  columns_ne_nil := accepted_sample.columns_ne_nil
  group := accepted_sample.group
  weight := by simp

/-- Two of the three respondents are included. -/
theorem build_bases_sample : ∃ t base, sample.Reachable ∧ build sample sampleDesign {} = .ok t ∧
    HasBases sample sampleDesign {} t base ∧ t.baseIndex? = some base ∧ t.cell base 0 = some 2.0 := by
  have hb := build_eq_ok_iff.mpr ⟨accepted_sample_total, rfl⟩
  obtain ⟨base, h⟩ := build_bases reachable_sample hb
  obtain ⟨column, hcolumn, htotal⟩ := h.total_column rfl
  refine ⟨_, base, reachable_sample, hb, h, h.baseIndex_eq, ?_⟩
  rcases h.base_cell 0 column hcolumn with ⟨-, -, hcell⟩ | ⟨j, hj, -⟩
  · rw [hcell]
    decide
  · rw [htotal] at hj
    exact nomatch hj

end Tabulation

end SurveyTables
