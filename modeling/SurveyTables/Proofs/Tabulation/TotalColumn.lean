import SurveyTables.Proofs.Tabulation.ByLabels

/-!
# The total column

The total column is a matter of display. Asking for it adds a column and shows the rows that have no
other cell, and changes nothing else.

* `Table.bare`: a table whose labels have no filler;
* `Table.withoutTotal`: a table without its first column and without the data rows that are empty in all
  others;
* `Table.Reads`, `Reads.withoutTotal`, `Reads.bare_eq_bare`: tables whose cells follow from their labels;
* `filter_rowTexts`: the texts of the rows that are not empty without the total column;
* **`build_columnTotal`**: without a total column the table is the one with it, less that column and
  these rows.
-/

namespace SurveyTables

/-- The label is that of a row or a column of a group. -/
def Label.isData (l : Label) : Bool :=
  match l.kind with
  | .data _ => true
  | .total | .base => false

namespace Table

variable {α : Type}

/-- The table with labels that have no filler. -/
def bare (t : Table α) : Table α :=
  { t with rows := t.rows.map Label.bare, columns := t.columns.map Label.bare }

/-- The table without the first column, and without the data rows that are empty in all other columns. -/
def withoutTotal (t : Table α) : Table α :=
  let rows := (t.rows.zip (t.cells.map List.tail)).filter fun row =>
    !row.1.isData || row.2.any Option.isSome
  { t with rows := rows.map Prod.fst, columns := t.columns.tail, cells := rows.map Prod.snd }

/-- The cells are those that a function tells from the labels, whatever their filler. -/
structure Reads (t : Table α) (f : Label → Label → Option α) : Prop where
  cells_eq : t.cells = t.rows.map fun row => t.columns.map fun column => f row column
  bare_eq : ∀ row column, f row.bare column.bare = f row column

namespace Reads

variable {t s : Table α} {f : Label → Label → Option α}

theorem zip_eq (h : t.Reads f) : (t.rows.zip (t.cells.map List.tail)).filter (fun row =>
      !row.1.isData || row.2.any Option.isSome) =
    (t.rows.filter fun row => !row.isData || t.columns.tail.any fun column => (f row column).isSome).map
      fun row => (row, t.columns.tail.map fun column => f row column) := by
  have hcells : t.cells.map List.tail =
      t.rows.map fun row => t.columns.tail.map fun column => f row column := by
    rw [h.cells_eq, List.map_map]
    simp only [Function.comp_def, List.map_tail]
  rw [hcells, ← List.map_prod_left_eq_zip, List.filter_map]
  simp only [Function.comp_def, List.any_map]

theorem rows_withoutTotal (h : t.Reads f) : t.withoutTotal.rows = t.rows.filter fun row =>
    !row.isData || t.columns.tail.any fun column => (f row column).isSome := by
  rw [Table.withoutTotal, h.zip_eq, List.map_map]
  exact List.map_id _

theorem withoutTotal (h : t.Reads f) : t.withoutTotal.Reads f where
  cells_eq := by
    have hcells := congrArg (List.map Prod.snd) h.zip_eq
    rw [List.map_map] at hcells
    rw [h.rows_withoutTotal]
    exact hcells
  bare_eq := h.bare_eq

theorem bare_eq_bare (h : t.Reads f) (hs : s.Reads f)
    (hrows : t.rows.map Label.bare = s.rows.map Label.bare)
    (hcolumns : t.columns.map Label.bare = s.columns.map Label.bare)
    (hstatistic : t.statistic = s.statistic) (hcaption : t.caption = s.caption)
    (hwarnings : t.warnings = s.warnings) : t.bare = s.bare := by
  have hbare : ∀ rows columns : List Label,
      (rows.map fun row => columns.map fun column => f row column) = (rows.map Label.bare).map
        fun row => (columns.map Label.bare).map fun column => f row column := by
    intro rows columns
    simp only [List.map_map, Function.comp_def, h.bare_eq]
  have hcells : t.cells = s.cells := by
    rw [h.cells_eq, hs.cells_eq, hbare, hbare s.rows, hrows, hcolumns]
  unfold bare
  rw [hrows, hcolumns, hcells, hstatistic, hcaption, hwarnings]

end Reads

end Table

namespace Tabulation

open Responses

variable {r : Responses} {d : Design} {o : Options} {t : Table Float}

/-! ## Labels without filler -/

theorem bare_dataLabel {g : Group} (hg : ∀ id ∈ g, id ≠ "") (depth i : Nat) (ts : List String) :
    (dataLabel depth i g ts).bare = dataLabel 0 i g ts := by
  have hpad : Path.pad 0 (g.zip ts) = g.zip ts := by
    rw [Path.pad, Nat.zero_sub, List.replicate_zero, List.append_nil]
  rw [Label.bare, pairs_dataLabel hg, dataLabel, dataLabel, hpad]

theorem bare_dataLabels {gs : List Group} (hgs : ∀ g ∈ gs, ∀ id ∈ g, id ≠ "") (depth : Nat)
    (texts : Group → List (List String)) :
    (dataLabels depth gs texts).map Label.bare = dataLabels 0 gs texts := by
  unfold dataLabels
  rw [List.map_flatMap]
  apply List.flatMap_congr
  intro entry hentry
  have hg := hgs entry.1 (List.mem_of_getElem? (List.mem_zipIdx_iff_getElem?.mp hentry))
  rw [List.map_map]
  exact List.map_congr_left fun ts _ => bare_dataLabel hg depth entry.2 ts

theorem bare_baseLabel (depth : Nat) : (baseLabel depth).bare = baseLabel 0 := by
  rw [Label.bare, pairs_baseLabel]
  rfl

theorem filter_dataLabels_eq {gs : List Group} {texts texts' : Group → List (List String)}
    {p : Label → Bool} (depth : Nat)
    (h : ∀ i g, gs[i]? = some g →
      (texts g).filter (fun ts => p (dataLabel depth i g ts)) = texts' g) :
    (dataLabels depth gs texts).filter p = dataLabels depth gs texts' := by
  unfold dataLabels
  rw [List.filter_flatMap]
  apply List.flatMap_congr
  intro entry hentry
  rw [List.filter_map, ← h entry.2 entry.1 (List.mem_zipIdx_iff_getElem?.mp hentry)]
  rfl

/-! ## The rows that stay -/

/-- A row has a number in some column of a group just if somebody shows its texts who has answered all
variables of a column group. -/
theorem any_isSome_cellOf_iff (hr : r.Valid) (ha : Accepted r d o) {i : Nat} {g : Group}
    (hi : d.rows[i]? = some g) {ts : List String} (hts : ts.length = g.length)
    (rowDepth columnDepth : Nat) :
    ((dataLabels columnDepth d.columns (columnTexts r d o)).any fun column =>
      (r.cellOf d o (dataLabel rowDepth i g ts) column).isSome) = true ↔
      ∃ k < r.respondents, r.includes d o k = true ∧
        (d.columns.any fun h => r.answersAll h k) = true ∧ r.shows g ts k = true := by
  have hg := ids_ne_empty hr ha .rows g (List.mem_of_getElem? hi)
  rw [List.any_eq_true]
  constructor
  · rintro ⟨column, hcolumn, hsome⟩
    obtain ⟨j, h, hj, us, hus, rfl⟩ := mem_dataLabels.mp hcolumn
    have hmem := List.mem_of_getElem? hj
    have hh := ids_ne_empty hr ha .columns h hmem
    rw [cellOf_dataLabel hg hh hts (length_of_mem_classTexts hus), isSome_total_counted] at hsome
    obtain ⟨k, hk, hincluded, hrow, hcolumn⟩ := hsome
    exact ⟨k, hk, hincluded, List.any_eq_true.mpr ⟨_, hmem, (shows_iff.mp hcolumn).1⟩, hrow⟩
  · rintro ⟨k, hk, hincluded, hany, hrow⟩
    obtain ⟨h, hmem, hall⟩ := List.any_eq_true.mp hany
    obtain ⟨j, hj⟩ := List.mem_iff_getElem?.mp hmem
    have hh := ids_ne_empty hr ha .columns h hmem
    have hshows : r.shows h (r.texts h k) k = true := shows_iff.mpr ⟨hall, rfl⟩
    have hus : r.texts h k ∈ columnTexts r d o h :=
      ((lists_columnTexts r d o h).mem_iff _).mpr ⟨k, hk, hincluded, rfl, hshows⟩
    refine ⟨dataLabel columnDepth j h (r.texts h k), mem_dataLabels.mpr ⟨j, h, hj, _, hus, rfl⟩, ?_⟩
    rw [cellOf_dataLabel hg hh hts (length_of_mem_classTexts hus), isSome_total_counted]
    exact ⟨k, hk, hincluded, hrow, hshows⟩

theorem filter_rowTexts (hr : r.Valid) (ha : Accepted r d o) {i : Nat} {g : Group}
    (hi : d.rows[i]? = some g) (rowDepth columnDepth : Nat) :
    ((rowTexts r d { o with columnTotal := true } g).filter fun ts =>
      (dataLabels columnDepth d.columns (columnTexts r d o)).any fun column =>
        (r.cellOf d o (dataLabel rowDepth i g ts) column).isSome) =
      rowTexts r d { o with columnTotal := false } g := by
  have hall : ∀ k, r.inColumns d { o with columnTotal := true } k = true := fun k => rfl
  have hsome : ∀ k, r.inColumns d { o with columnTotal := false } k =
      d.columns.any fun h => r.answersAll h k := fun k => rfl
  unfold rowTexts classTexts
  rw [List.filter_filter]
  apply List.filter_congr
  intro ts hts
  have hlength : ts.length = g.length := by
    obtain ⟨c, hc, rfl⟩ := List.mem_map.mp hts
    rw [List.length_map, length_answers_of_mem_sorted hc]
  rw [Bool.eq_iff_iff, Bool.and_eq_true, any_isSome_cellOf_iff hr ha hi hlength, any_range_iff,
    any_range_iff]
  simp only [hall, hsome, true_and]
  constructor
  · rintro ⟨h, -⟩
    exact h
  · rintro ⟨k, hk, hincluded, hany, hshows⟩
    exact ⟨⟨k, hk, hincluded, hany, hshows⟩, k, hk, hincluded, hshows⟩

/-! ## With and without the total column -/

theorem Accepted.withColumnTotal (ha : Accepted r d o) (columnTotal : Bool) :
    Accepted r d { o with columnTotal } where
  rows_ne_nil := ha.rows_ne_nil
  columns_ne_nil := ha.columns_ne_nil
  group := ha.group
  weight := ha.weight

section Labels

variable (hr : r.Valid) (ha : Accepted r d o)
include hr ha

theorem reads_cellOf (columnTotal : Bool)
    (ht : t = tabulate r d { o with columnTotal } (weights r d { o with columnTotal })) :
    t.Reads (r.cellOf d o) where
  cells_eq := by
    have hcells := cells_eq hr (ha.withColumnTotal columnTotal) ht
    exact hcells
  bare_eq := cellOf_bare

theorem bare_rowLabels (depth : Nat) (texts : Group → List (List String)) :
    (dataLabels depth d.rows texts ++ [baseLabel depth]).map Label.bare =
      dataLabels 0 d.rows texts ++ [baseLabel 0] := by
  have hids : ∀ g ∈ d.rows, ∀ id ∈ g, id ≠ "" :=
    ids_ne_empty hr ha .rows
  rw [List.map_append, bare_dataLabels hids, List.map_singleton, bare_baseLabel]

theorem bare_columnLabels (depth : Nat) (texts : Group → List (List String)) :
    (dataLabels depth d.columns texts).map Label.bare = dataLabels 0 d.columns texts := by
  have hids : ∀ g ∈ d.columns, ∀ id ∈ g, id ≠ "" :=
    ids_ne_empty hr ha .columns
  exact bare_dataLabels hids depth texts

theorem rows_withoutTotal_eq
    (ht : t = tabulate r d { o with columnTotal := true } (weights r d { o with columnTotal := true })) :
    t.withoutTotal.rows = dataLabels (depth (tableRows r d { o with columnTotal := true })) d.rows
        (rowTexts r d { o with columnTotal := false }) ++
      [baseLabel (depth (tableRows r d { o with columnTotal := true }))] := by
  have ha₁ := ha.withColumnTotal true
  have htail : t.columns.tail = dataLabels (depth (tableColumns r d { o with columnTotal := true }))
      d.columns (columnTexts r d o) := by
    rw [columns_eq hr ha₁ ht]
    rfl
  rw [(reads_cellOf hr ha true ht).rows_withoutTotal, rows_eq hr ha₁ ht, htail, List.filter_append]
  refine congr (congrArg _ (filter_dataLabels_eq _ fun i g hi => ?_)) rfl
  exact filter_rowTexts hr ha hi _ _

end Labels

/-- **The total column only adds.** Without it, and without the data rows that are empty in all other
columns, the table is the one that is made without a total column. -/
theorem build_columnTotal (hr : r.Reachable) (hb : build r d o = .ok t) :
    ∃ t₁ t₀, build r d { o with columnTotal := true } = .ok t₁ ∧
      build r d { o with columnTotal := false } = .ok t₀ ∧
      t₁.columns.head?.map Label.kind = some .total ∧ t₀.bare = t₁.withoutTotal.bare := by
  obtain ⟨ha, -⟩ := build_eq_ok_iff.mp hb
  have ha₁ := ha.withColumnTotal true
  have ha₀ := ha.withColumnTotal false
  obtain ⟨t₁, hb₁⟩ : ∃ t₁, build r d { o with columnTotal := true } = .ok t₁ :=
    ⟨_, build_eq_ok_iff.mpr ⟨ha₁, rfl⟩⟩
  obtain ⟨t₀, hb₀⟩ : ∃ t₀, build r d { o with columnTotal := false } = .ok t₀ :=
    ⟨_, build_eq_ok_iff.mpr ⟨ha₀, rfl⟩⟩
  obtain ⟨-, ht₁⟩ := build_eq_ok_iff.mp hb₁
  obtain ⟨-, ht₀⟩ := build_eq_ok_iff.mp hb₀
  have hcolumns₁ := columns_eq hr.valid ha₁ ht₁
  refine ⟨t₁, t₀, hb₁, hb₀, ?_, ?_⟩
  · rw [hcolumns₁]
    rfl
  · refine (reads_cellOf hr.valid ha false ht₀).bare_eq_bare
      (reads_cellOf hr.valid ha true ht₁).withoutTotal ?_ ?_ ?_ ?_ ?_
    · rw [rows_withoutTotal_eq hr.valid ha ht₁, rows_eq hr.valid ha₀ ht₀, bare_rowLabels hr.valid ha,
        bare_rowLabels hr.valid ha]
    · have htail : t₁.withoutTotal.columns = dataLabels _ d.columns (columnTexts r d o) :=
        congrArg List.tail hcolumns₁
      have hall : t₀.columns = dataLabels _ d.columns (columnTexts r d o) := columns_eq hr.valid ha₀ ht₀
      rw [htail, hall, bare_columnLabels hr.valid ha, bare_columnLabels hr.valid ha]
    · rw [ht₀, Table.withoutTotal, ht₁]
      rfl
    · rw [ht₀, Table.withoutTotal, ht₁]
      rfl
    · rw [ht₀, Table.withoutTotal, ht₁]
      exact (warnings_tabulate hr.valid ha₀).trans (warnings_tabulate hr.valid ha₁).symm

/-- The second variable of the sample against the first, which the third respondent left out. -/
def petDesign : Design where
  rows := [["pet"]]
  columns := [["sex"]]

theorem accepted_petDesign : Accepted sample petDesign {} :=
  accepted_of_sampleIds (by decide) (by decide) (by intro axis; cases axis <;> decide) rfl

set_option maxRecDepth 100000 in
theorem rowTexts_petDesign (columnTotal : Bool) :
    rowTexts sample petDesign { columnTotal } ["pet"] =
      if columnTotal then [["cat"], ["dog"]] else [["dog"]] := by
  have h : classAnswers sample (sample.includes petDesign { columnTotal }) ["pet"] =
      [some [.text "dog"], some [.text "dog"], some [.text "cat"]] := rfl
  have hsorted : (GroupKeys.ofAnswers ["pet"]
      [some [.text "dog"], some [.text "dog"], some [.text "cat"]]).sorted =
      [({ key := "pet::cat", answers := [.text "cat"] }, 1),
        ({ key := "pet::dog", answers := [.text "dog"] }, 0)] := by
    cbv
  rw [rowTexts, classTexts, classes, h, hsorted]
  cases columnTotal <;> decide

theorem pairs_rows_petDesign {columnTotal : Bool}
    (hb : build sample petDesign { columnTotal } = .ok t) : t.rows.map Label.pairs =
      (if columnTotal then [[("pet", "cat")], [("pet", "dog")]] else [[("pet", "dog")]]) ++
        [[(baseId, Statistic.count.marker)]] := by
  obtain ⟨ha, ht⟩ := build_eq_ok_iff.mp hb
  have hpet : ∀ id ∈ ["pet"], id ≠ "" := by simp
  have hrows := rows_eq reachable_sample.valid ha ht
  simp only [petDesign, dataLabels, List.zipIdx_cons, List.zipIdx_nil, List.flatMap_singleton] at hrows
  rw [hrows, List.map_append, List.map_map]
  have h := rowTexts_petDesign columnTotal
  simp only [petDesign] at h
  rw [h]
  cases columnTotal <;> simp [pairs_dataLabel hpet, pairs_baseLabel]

/-- Without the total column the row of the cat is not shown, since its only owner told no sex. -/
theorem build_columnTotal_sample : ∃ t₁ t₀, build sample petDesign {} = .ok t₁ ∧
    build sample petDesign { columnTotal := false } = .ok t₀ ∧
    t₁.rows.map Label.pairs =
      [[("pet", "cat")], [("pet", "dog")], [(baseId, Statistic.count.marker)]] ∧
    t₀.rows.map Label.pairs = [[("pet", "dog")], [(baseId, Statistic.count.marker)]] ∧
    t₀.bare = t₁.withoutTotal.bare := by
  have hb := build_eq_ok_iff.mpr ⟨accepted_petDesign, rfl⟩
  obtain ⟨t₁, t₀, hb₁, hb₀, -, hbare⟩ := build_columnTotal reachable_sample hb
  exact ⟨t₁, t₀, hb₁, hb₀, pairs_rows_petDesign hb₁, pairs_rows_petDesign hb₀, hbare⟩

end Tabulation

end SurveyTables
