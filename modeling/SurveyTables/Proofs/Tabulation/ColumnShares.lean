import SurveyTables.Proofs.Tabulation.Percent
import SurveyTables.Proofs.Tabulation.TotalColumn

/-!
# Column percentages add up

A table with one variable on its rows sorts the respondents of every column by what they said about it: each
has answered it, or would not be included.

* `Responses.countedIn`: the respondents whose weights are added up in a cell;
* `inColumns_of_belongs`, `existsUnique_row`: those of a base come up again in one row, and in one only;
* `SplitsColumns`: the rows of a table split the bases of its columns;
* `SplitsColumns.sum_eq`, `sum_share?_eq_one`: where weights are added exactly, the rows add up to the base,
  and their percentages to 1;
* `getD_cell_eq_sum`, `isSome_cell_eq`: the table of a request in other numbers;
* **`build_splitsColumns`**: a table with one variable on its rows does both.
-/

namespace SurveyTables

namespace Responses

/-- The respondents whose weights are added up in a cell, in this order. -/
def countedIn {α : Type} (r : Responses) (d : Design) (o : Options) (t : Table α) (x y : Nat) : List Nat :=
  match t.rows[x]?, t.columns[y]? with
  | some row, some column => r.common d o row column
  | _, _ => []

variable {α : Type} {r : Responses} {d : Design} {o : Options} {t : Table α}

theorem mem_countedIn {x y k : Nat} : k ∈ r.countedIn d o t x y ↔
    ∃ row column, t.rows[x]? = some row ∧ t.columns[y]? = some column ∧ k < r.respondents ∧
      r.includes d o k = true ∧ r.belongs row k = true ∧ r.belongs column k = true := by
  rw [countedIn]
  cases hx : t.rows[x]? with
  | none => simp
  | some row =>
    cases hy : t.columns[y]? with
    | none => simp
    | some column => simp [common]

theorem getD_sumOf [Zero α] [Add α] (weight : Nat → α) (row column : Label) :
    (r.sumOf d o weight row column).getD 0 =
      ((r.common d o row column).map weight).foldl (· + ·) 0 := by
  rw [sumOf, Tabulation.Tally.getD_sumFrom]
  split <;> rfl

theorem getD_sumOf_eq_sum [AddCommMonoid α] (weight : Nat → α) (row column : Label) :
    (r.sumOf d o weight row column).getD 0 = ∑ k ∈ (r.common d o row column).toFinset, weight k := by
  have hnodup : (r.common d o row column).Nodup := List.nodup_range.filter _
  rw [List.sum_toFinset _ hnodup, List.sum_eq_foldl]
  exact getD_sumOf weight row column

end Responses

namespace Tabulation

open Responses

variable {r : Responses} {d : Design} {o : Options} {t : Table Float} {id : String} {base : Nat}

/-! ## The respondents of a column -/

theorem inColumns_of_belongs (hr : r.Valid) (ha : Accepted r d o)
    (ht : t = tabulate r d o (weights r d o)) {column : Label} (hcolumn : column ∈ t.columns) {k : Nat}
    (hk : r.belongs column k = true) : r.inColumns d o k = true := by
  rw [inColumns, Bool.or_eq_true]
  rw [columns_eq hr ha ht, List.mem_append] at hcolumn
  rcases hcolumn with htotal | hdata
  · left
    by_contra ho
    rw [if_neg ho] at htotal
    exact absurd htotal List.not_mem_nil
  · right
    obtain ⟨i, g, hi, ts, hts, rfl⟩ := mem_dataLabels.mp hdata
    have hg := List.mem_of_getElem? hi
    rw [belongs_dataLabel (ids_ne_empty hr ha .columns g hg) (length_of_mem_classTexts hts)] at hk
    exact List.any_eq_true.mpr ⟨g, hg, (shows_iff.mp hk).1⟩

section SingleVariable

theorem shows_of_includes (hrows : d.rows = [[id]]) {k : Nat} (hincluded : r.includes d o k = true) :
    r.shows [id] (r.texts [id] k) k = true := by
  refine shows_iff.mpr ⟨?_, rfl⟩
  rw [includes, hrows, Bool.and_eq_true] at hincluded
  simpa [answersAll] using hincluded.1

variable (hr : r.Valid) (ha : Accepted r d o) (ht : t = tabulate r d o (weights r d o))
  (hrows : d.rows = [[id]])
include hr ha ht hrows

theorem rows_eq_of_single : t.rows =
    (rowTexts r d o [id]).map (dataLabel (depth (tableRows r d o)) 0 [id]) ++
      [baseLabel (depth (tableRows r d o))] := by
  rw [rows_eq hr ha ht, hrows, dataLabels, List.zipIdx_singleton, List.flatMap_singleton]

theorem getElem?_rows_of_lt (hbase : t.rows.length = base + 1) {x : Nat} (hx : x < base) :
    t.rows[x]? = (rowTexts r d o [id])[x]?.map (dataLabel (depth (tableRows r d o)) 0 [id]) := by
  have hrowsEq := rows_eq_of_single hr ha ht hrows
  rw [hrowsEq, List.length_append, List.length_singleton] at hbase
  rw [hrowsEq, List.getElem?_append_left (by omega), List.getElem?_map]

theorem length_rowTexts_of_single (hbase : t.rows.length = base + 1) :
    (rowTexts r d o [id]).length = base := by
  rw [rows_eq_of_single hr ha ht hrows] at hbase
  simpa using hbase

/-- **Who is counted in a base is counted in one row**, and in no other. -/
theorem existsUnique_row (hbase : t.rows.length = base + 1) {y k : Nat}
    (hk : k ∈ r.countedIn d o t base y) : ∃! x, x < base ∧ k ∈ r.countedIn d o t x y := by
  obtain ⟨_, column, -, hy, hlt, hincluded, -, hcolumn⟩ := mem_countedIn.mp hk
  have hid : ∀ id' ∈ [id], id' ≠ "" := by
    apply ids_ne_empty hr ha .rows
    show [id] ∈ d.rows
    rw [hrows]
    exact List.mem_singleton_self _
  have hlists := lists_rowTexts r d o [id]
  have hlength := length_rowTexts_of_single hr ha ht hrows hbase
  have hshows := shows_of_includes hrows hincluded
  have hmem : r.texts [id] k ∈ rowTexts r d o [id] := by
    refine (hlists.mem_iff _).mpr ⟨k, hlt, hincluded, ?_, hshows⟩
    exact inColumns_of_belongs hr ha ht (List.mem_of_getElem? hy) hcolumn
  obtain ⟨x, hx, htexts⟩ := List.mem_iff_getElem.mp hmem
  have hrow : t.rows[x]? = some (dataLabel (depth (tableRows r d o)) 0 [id] (r.texts [id] k)) := by
    rw [getElem?_rows_of_lt hr ha ht hrows hbase (by omega), List.getElem?_eq_getElem hx, htexts]
    rfl
  refine ⟨x, ⟨by omega, mem_countedIn.mpr ⟨_, column, hrow, hy, hlt, hincluded, ?_, hcolumn⟩⟩, ?_⟩
  · rwa [belongs_dataLabel hid (length_of_mem_classTexts hmem)]
  · -- another row of the respondent has the same texts
    rintro x' ⟨hx', hk'⟩
    obtain ⟨row, _, hrow', -, -, -, hbelongs, -⟩ := mem_countedIn.mp hk'
    have hlt' : x' < (rowTexts r d o [id]).length := by omega
    rw [getElem?_rows_of_lt hr ha ht hrows hbase hx', List.getElem?_eq_getElem hlt', Option.map_some,
      Option.some_inj] at hrow'
    rw [← hrow', belongs_dataLabel hid (length_of_mem_classTexts (List.getElem_mem hlt'))] at hbelongs
    have hsame : (rowTexts r d o [id])[x'] = (rowTexts r d o [id])[x] := by
      rw [htexts, ← (shows_iff.mp hbelongs).2]
    exact hlists.nodup.getElem_inj_iff.mp hsame

end SingleVariable

/-- The rows of a table split the bases of its columns. A cell holds the sum of the weights of those who
are counted in it, added in their order, where an empty cell stands for 0; and no column is without its
base. Whoever is counted in the base of a column is counted in just one other row of the column, with the
same weight, and nobody else is counted in the column. -/
structure SplitsColumns (r : Responses) (d : Design) (o : Options) (t : Table Float) (base : Nat) :
    Prop where
  hasBaseRow : t.HasBaseRow base
  getD_cell : ∀ x y, (t.cell x y).getD 0 = r.weigh o (r.countedIn d o t x y)
  isSome_base : ∀ y < t.columns.length, (t.cell base y).isSome = true
  counted_once : ∀ y, ∀ k ∈ r.countedIn d o t base y, ∃! x, x < base ∧ k ∈ r.countedIn d o t x y
  counted_in_base : ∀ x y, ∀ k ∈ r.countedIn d o t x y, k ∈ r.countedIn d o t base y

/-! ## Exact sums -/

theorem SplitsColumns.sum_eq (h : SplitsColumns r d o t base) {α : Type} [AddCommMonoid α]
    (weight : Nat → α) (y : Nat) :
    ∑ x ∈ Finset.range base, ∑ k ∈ (r.countedIn d o t x y).toFinset, weight k =
      ∑ k ∈ (r.countedIn d o t base y).toFinset, weight k := by
  have hdisjoint : (Finset.range base : Set Nat).PairwiseDisjoint
      fun x => (r.countedIn d o t x y).toFinset := by
    intro x hx x' hx' hne
    rw [Function.onFun, Finset.disjoint_left]
    intro k hk hk'
    rw [List.mem_toFinset] at hk hk'
    have hunique := h.counted_once y k (h.counted_in_base x y k hk)
    exact hne (hunique.unique ⟨Finset.mem_range.mp hx, hk⟩ ⟨Finset.mem_range.mp hx', hk'⟩)
  rw [← Finset.sum_biUnion hdisjoint]
  congr 1
  ext k
  rw [Finset.mem_biUnion]
  simp only [Finset.mem_range, List.mem_toFinset]
  constructor
  · rintro ⟨x, -, hk⟩
    exact h.counted_in_base x y k hk
  · intro hk
    exact (h.counted_once y k hk).exists

/-! ## Tables in other numbers -/

theorem countedIn_congr {α β : Type} {s : Table α} {u : Table β} (hrows : s.rows = u.rows)
    (hcolumns : s.columns = u.columns) (x y : Nat) :
    r.countedIn d o s x y = r.countedIn d o u x y := by
  rw [countedIn, countedIn, hrows, hcolumns]

section OtherNumbers

variable {α : Type} {weight : Nat → α} {s : Table α} (hr : r.Valid) (ha : Accepted r d o)
include hr ha

theorem getD_cell_eq_sum [AddCommMonoid α]
    (hs : s = tabulate r d o (weightsOf r.respondents (r.includes d o) weight)) (x y : Nat) :
    (s.cell x y).getD 0 = ∑ k ∈ (r.countedIn d o s x y).toFinset, weight k := by
  rw [cell_eq_bind (cells_eq_sumOf hr ha weight hs), countedIn]
  cases s.rows[x]? with
  | none => rfl
  | some row =>
    cases s.columns[y]? with
    | none => rfl
    | some column => exact getD_sumOf_eq_sum weight row column

theorem isSome_cell_eq [Zero α] [Add α]
    (hs : s = tabulate r d o (weightsOf r.respondents (r.includes d o) weight))
    (ht : t = tabulate r d o (weights r d o)) (x y : Nat) :
    (s.cell x y).isSome = (t.cell x y).isSome := by
  obtain ⟨hrows, hcolumns, -⟩ := tabulate_weightsOf hr ha weight hs
  obtain ⟨hrows', hcolumns', -⟩ := tabulate_eq hr ha ht
  rw [cell_eq_bind (cells_eq_sumOf hr ha weight hs), cell_eq_bind (cells_eq hr ha ht), hrows, hcolumns,
    hrows', hcolumns']
  cases (labels (tableRows r d o))[x]? with
  | none => rfl
  | some row =>
    cases (labels (tableColumns r d o))[y]? with
    | none => rfl
    | some column =>
      simp only [Option.bind_some, cellOf_eq_sumOf, isSome_sumOf]

end OtherNumbers

theorem map_weightsOf {α β : Type} (f : α → β) (n : Nat) (included : Nat → Bool) (weight : Nat → α) :
    (weightsOf n included weight).map (Option.map f) = weightsOf n included fun k => f (weight k) := by
  rw [weightsOf, weightsOf, List.map_map]
  refine List.map_congr_left fun k _ => ?_
  rw [Function.comp_apply]
  cases included k <;> rfl

theorem map_weights (hr : r.Valid) (ha : Accepted r d o) {β : Type} (value : Float → β) :
    (weights r d o).map (Option.map value) =
      weightsOf r.respondents (r.includes d o) fun k => value (r.weightIn o k) := by
  rw [weights_eq hr ha, map_weightsOf]

theorem sum_share?_eq_one {K : Type} [Field K] [DecidableEq K] {cells : Nat → Option K} {whole : K}
    (hsum : ∑ x ∈ Finset.range base, (cells x).getD 0 = whole) (hne : whole ≠ 0) :
    ∑ x ∈ Finset.range base, (Table.share? (cells x) (some whole)).getD 0 = 1 := by
  have hshare : ∀ x, (Table.share? (cells x) (some whole)).getD 0 = (cells x).getD 0 / whole := by
    intro x
    cases cells x with
    | none => exact (zero_div whole).symm
    | some part => simp [Table.share?, hne]
  simp only [hshare]
  rw [← Finset.sum_div, hsum, div_self hne]

/-! ## The table of one variable -/

theorem splitsColumns (hr : r.Reachable) (ha : Accepted r d o) (ht : t = tabulate r d o (weights r d o))
    (hrows : d.rows = [[id]]) : SplitsColumns r d o t (basePlace r d o) := by
  have hbase := hasBaseRow hr.valid ha ht
  constructor
  case hasBaseRow => exact hbase
  case getD_cell =>
    intro x y
    rw [cell_eq_bind (cells_eq hr.valid ha ht), countedIn]
    cases t.rows[x]? with
    | none => rfl
    | some row =>
      cases t.columns[y]? with
      | none => rfl
      | some column =>
        rw [Option.bind_some, Option.bind_some, cellOf_eq_sumOf]
        exact getD_sumOf (r.weightIn o) row column
  case isSome_base =>
    intro y hy
    rcases base_cell_eq hr ha ht (List.getElem?_eq_getElem hy) with ⟨-, -, hcell⟩ | ⟨_, -, -, hcell⟩
    · rw [hcell, Option.isSome_some]
    · rw [hcell, Option.isSome_some]
  case counted_once =>
    intro y k hk
    exact existsUnique_row hr.valid ha ht hrows hbase.length_rows hk
  case counted_in_base =>
    intro x y k hk
    obtain ⟨_, column, -, hy, hlt, hincluded, -, hcolumn⟩ := mem_countedIn.mp hk
    obtain ⟨row, hrow, hkind⟩ := hbase.exists_row
    exact mem_countedIn.mpr
      ⟨row, column, hrow, hy, hlt, hincluded, belongs_of_base hkind k, hcolumn⟩

/-- **The percentages of a plain question add up.** Whoever is counted in the base of a column is counted in
just one data row of it, so in exact numbers the shares add up to 1. -/
theorem build_splitsColumns (hr : r.Reachable) (hb : build r d o = .ok t) (hrows : d.rows = [[id]]) :
    ∃ base, SplitsColumns r d o t base ∧ ∀ value : Float → ℚ, ∃ s p : Table ℚ,
      s = tabulate r d o ((weights r d o).map (Option.map value)) ∧
      s.rows = t.rows ∧ s.columns = t.columns ∧ s.percent = .ok p ∧
      (∀ x y, (s.cell x y).getD 0 =
        ∑ k ∈ (r.countedIn d o t x y).toFinset, value (r.weightIn o k)) ∧
      ∀ y < t.columns.length, ∃ whole, s.cell base y = some whole ∧
        ∑ x ∈ Finset.range base, (s.cell x y).getD 0 = whole ∧
        (whole ≠ 0 → ∑ x ∈ Finset.range base, (p.cell x y).getD 0 = 1) := by
  obtain ⟨ha, ht⟩ := build_eq_ok_iff.mp hb
  have hsplits := splitsColumns hr ha ht hrows
  refine ⟨basePlace r d o, hsplits, fun value => ?_⟩
  obtain ⟨s, hs⟩ : ∃ s, s = tabulate r d o ((weights r d o).map (Option.map value)) := ⟨_, rfl⟩
  have hs' := hs
  rw [map_weights hr.valid ha] at hs'
  obtain ⟨hrowsEq, hcolumnsEq, -⟩ := tabulate_weightsOf hr.valid ha _ hs'
  obtain ⟨hrowsEq', hcolumnsEq', -⟩ := tabulate_eq hr.valid ha ht
  rw [← hrowsEq'] at hrowsEq
  rw [← hcolumnsEq'] at hcolumnsEq
  have hbase : s.baseIndex? = some (basePlace r d o) := by
    rw [← hsplits.hasBaseRow.baseIndex?_eq, Table.baseIndex?, Table.baseIndex?, hrowsEq]
  have hcount : s.statistic ≠ .columnPercent := by
    rw [hs]
    exact Statistic.noConfusion
  have hcells : ∀ x y, (s.cell x y).getD 0 =
      ∑ k ∈ (r.countedIn d o t x y).toFinset, value (r.weightIn o k) := by
    intro x y
    rw [getD_cell_eq_sum hr.valid ha hs', countedIn_congr hrowsEq hcolumnsEq]
  refine ⟨s, _, hs, hrowsEq, hcolumnsEq, Table.percent_of_baseIndex hcount hbase, hcells, fun y hy => ?_⟩
  have hsome : (s.cell (basePlace r d o) y).isSome = true := by
    rw [isSome_cell_eq hr.valid ha hs' ht]
    exact hsplits.isSome_base y hy
  obtain ⟨whole, hwhole⟩ := Option.isSome_iff_exists.mp hsome
  have hsum : ∑ x ∈ Finset.range (basePlace r d o), (s.cell x y).getD 0 = whole := by
    rw [Finset.sum_congr rfl fun x _ => hcells x y, hsplits.sum_eq, ← hcells, hwhole, Option.getD_some]
  refine ⟨whole, hwhole, hsum, fun hne => ?_⟩
  rw [← sum_share?_eq_one hsum hne]
  refine Finset.sum_congr rfl fun x hx => ?_
  rw [Table.cell_toPercent (Nat.ne_of_lt (Finset.mem_range.mp hx)), hwhole]

/-- Two have a dog and one has a cat, where everybody weighs 1. -/
theorem build_splitsColumns_sample : ∃ t, sample.Reachable ∧ build sample petDesign {} = .ok t ∧
    petDesign.rows = [["pet"]] ∧ SplitsColumns sample petDesign {} t 2 ∧
    ∃ s p : Table ℚ, s = tabulate sample petDesign {}
        ((weights sample petDesign {}).map (Option.map fun _ => 1)) ∧
      s.percent = .ok p ∧ s.cell 2 0 = some 3 ∧
      ∑ x ∈ Finset.range 2, (s.cell x 0).getD 0 = 3 ∧ ∑ x ∈ Finset.range 2, (p.cell x 0).getD 0 = 1 := by
  have hb := build_eq_ok_iff.mpr ⟨accepted_petDesign, rfl⟩
  have hdesign : petDesign.rows = [["pet"]] := rfl
  obtain ⟨base, hsplits, hexact⟩ := build_splitsColumns reachable_sample hb hdesign
  obtain ⟨s, p, hs, hrows, hcolumns, hp, -, hshares⟩ := hexact fun _ => 1
  have htexts : rowTexts sample petDesign {} ["pet"] = [["cat"], ["dog"]] := rowTexts_petDesign true
  rw [rows_eq_of_single reachable_sample.valid accepted_petDesign rfl hdesign, htexts] at hrows
  rw [columns_eq reachable_sample.valid accepted_petDesign rfl] at hcolumns
  obtain rfl : base = 2 := by
    have hlength := congrArg List.length (@pairs_rows_petDesign _ true hb)
    rw [List.length_map, hsplits.hasBaseRow.length_rows] at hlength
    exact Nat.succ.inj hlength
  obtain ⟨whole, hwhole, hsum, hone⟩ := hshares 0 (by
    rw [columns_eq reachable_sample.valid accepted_petDesign rfl]
    exact Nat.zero_lt_succ _)
  have hcell : s.cell 2 0 = some 3 := by
    rw [map_weights reachable_sample.valid accepted_petDesign] at hs
    rw [cell_eq_bind (cells_eq_sumOf reachable_sample.valid accepted_petDesign _ hs), hrows, hcolumns]
    show sample.sumOf petDesign {} (fun _ => (1 : ℚ)) (baseLabel _) (totalLabel _) = some 3
    have hcommon : sample.common petDesign {} (baseLabel (depth (tableRows sample petDesign {})))
      (totalLabel (depth (tableColumns sample petDesign {}))) = [0, 1, 2] := by decide
    rw [sumOf, hcommon, if_pos ⟨rfl, rfl⟩, Tally.sumFrom_some]
    norm_num
  obtain rfl : whole = 3 := Option.some.inj (hwhole.symm.trans hcell)
  exact ⟨_, reachable_sample, hb, hdesign, hsplits, s, p, hs, hp, hcell, hsum, hone (by norm_num)⟩

end Tabulation

end SurveyTables
