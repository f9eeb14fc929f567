import SurveyTables.Proofs.Tabulation.ByLabels

/-!
# Stacked groups

A table of several groups holds the tables of each row group with each column group. A respondent who has
answered all variables of a row group is included with this group alone just as with others beside it.

* `Table.part`, `Table.HasCell`: the rows and columns of two kinds, filler aside, with their cells;
* `part_data_data`, `part_data_total`: such parts, by the texts of the groups;
* `includes_of_answersAll`: who is included among those who have answered a row group;
* **`hasCell_iff`**: the numbers in the part of two groups, by the respondents who show their texts;
* **`build_stacked`**: the part of two groups has the numbers of the table of these groups alone, and
  its totals.
-/

namespace SurveyTables

namespace Table

variable {α : Type}

/-- The rows of a kind, each with its pairs and with its cells in the columns of a kind, these with the
pairs of their columns. -/
def part (t : Table α) (rowKind columnKind : Label.Kind) : List (Path × List (Path × Option α)) :=
  ((t.rows.zip t.cells).filter fun row => row.1.kind == rowKind).map fun row =>
    (row.1.pairs, ((t.columns.zip row.2).filter fun column => column.1.kind == columnKind).map
      fun column => (column.1.pairs, column.2))

/-- A row of the group `i` with the pairs `p` has the number in a column of the group `j` with the
pairs `q`. -/
def HasCell (t : Table α) (i j : Nat) (p q : Path) (x : α) : Prop :=
  ∃ row ∈ t.part (.data i) (.data j), row.1 = p ∧ (q, some x) ∈ row.2

theorem filter_zip_map {β γ : Type} (kind : β → Label.Kind) (f : β → γ) (k : Label.Kind)
    (as : List β) : (as.zip (as.map f)).filter (fun pair => kind pair.1 == k) =
      (as.filter fun a => kind a == k).map fun a => (a, f a) := by
  rw [← List.map_prod_left_eq_zip, List.filter_map]
  rfl

theorem part_eq {t : Table α} {f : Label → Label → Option α}
    (h : t.cells = t.rows.map fun row => t.columns.map fun column => f row column)
    (rowKind columnKind : Label.Kind) :
    t.part rowKind columnKind = (t.rows.filter fun row => row.kind == rowKind).map fun row =>
      (row.pairs, (t.columns.filter fun column => column.kind == columnKind).map
        fun column => (column.pairs, f row column)) := by
  rw [part, h, filter_zip_map, List.map_map]
  apply List.map_congr_left
  intro row _
  rw [Function.comp_apply, filter_zip_map, List.map_map]
  rfl

end Table

namespace Tabulation

open Responses

variable {r : Responses} {d : Design} {o : Options} {t : Table Float} {i j : Nat} {g h : Group}

/-! ## The labels of one group -/

theorem flatMap_zipIdx_of_getElem? {α β : Type} {f : α × Nat → List β} {as : List α} {a : α} (n : Nat)
    {i : Nat} (hi : as[i]? = some a) (hf : ∀ entry, entry.2 ≠ n + i → f entry = []) :
    (as.zipIdx n).flatMap f = f (a, n + i) := by
  induction as generalizing n i with
  | nil => simp at hi
  | cons b as ih =>
    rw [List.zipIdx_cons, List.flatMap_cons]
    cases i with
    | zero =>
      obtain rfl := Option.some.inj hi
      have hrest : (as.zipIdx (n + 1)).flatMap f = [] := by
        rw [List.flatMap_eq_nil_iff]
        intro entry hentry
        have := List.le_snd_of_mem_zipIdx hentry
        exact hf entry (by omega)
      rw [hrest, List.append_nil, Nat.add_zero]
    | succ i =>
      have hplace : n + 1 + i = n + (i + 1) := by omega
      have hrest := ih (n + 1) (i := i) hi (by rwa [hplace])
      rw [hf (b, n) (by simp), List.nil_append, hrest, hplace]

theorem filter_dataLabels {gs : List Group} (hi : gs[i]? = some g) (depth : Nat)
    (texts : Group → List (List String)) :
    ((dataLabels depth gs texts).filter fun l => l.kind == .data i) =
      (texts g).map (dataLabel depth i g) := by
  unfold dataLabels
  rw [List.filter_flatMap, flatMap_zipIdx_of_getElem? 0 hi, Nat.zero_add, List.filter_eq_self]
  · intro l hl
    obtain ⟨ts, -, rfl⟩ := List.mem_map.mp hl
    exact beq_self_eq_true _
  · intro entry hentry
    rw [List.filter_eq_nil_iff]
    intro l hl
    obtain ⟨ts, -, rfl⟩ := List.mem_map.mp hl
    simpa [dataLabel] using hentry

theorem filter_total_dataLabels (gs : List Group) (depth : Nat)
    (texts : Group → List (List String)) :
    ((dataLabels depth gs texts).filter fun l => l.kind == .total) = [] := by
  rw [List.filter_eq_nil_iff]
  intro l hl
  obtain ⟨entry, -, hl⟩ := List.mem_flatMap.mp hl
  obtain ⟨ts, -, rfl⟩ := List.mem_map.mp hl
  simp [dataLabel]

/-! ## The parts of a table -/

section Parts

variable (hr : r.Valid) (ha : Accepted r d o) (ht : t = tabulate r d o (weights r d o))
include hr ha ht

theorem filter_rows_data (hi : d.rows[i]? = some g) :
    (t.rows.filter fun row => row.kind == .data i) =
      (rowTexts r d o g).map (dataLabel (depth (tableRows r d o)) i g) := by
  rw [rows_eq hr ha ht, List.filter_append, filter_dataLabels hi]
  exact List.append_nil _

theorem filter_columns_data (hj : d.columns[j]? = some h) :
    (t.columns.filter fun column => column.kind == .data j) =
      (columnTexts r d o h).map (dataLabel (depth (tableColumns r d o)) j h) := by
  rw [columns_eq hr ha ht, List.filter_append, filter_dataLabels hj]
  cases o.columnTotal <;> rfl

theorem filter_columns_total (ho : o.columnTotal = true) :
    (t.columns.filter fun column => column.kind == .total) =
      [totalLabel (depth (tableColumns r d o))] := by
  rw [columns_eq hr ha ht, List.filter_append, filter_total_dataLabels, ho]
  rfl

theorem part_data_data (hi : d.rows[i]? = some g) (hj : d.columns[j]? = some h) :
    t.part (.data i) (.data j) = (rowTexts r d o g).map fun ts =>
      (g.zip ts, (columnTexts r d o h).map fun us =>
        (h.zip us, r.total o (r.counted d o g ts h us))) := by
  have hg := ids_ne_empty hr ha .rows g (List.mem_of_getElem? hi)
  have hh := ids_ne_empty hr ha .columns h (List.mem_of_getElem? hj)
  rw [Table.part_eq (cells_eq hr ha ht), filter_rows_data hr ha ht hi,
    filter_columns_data hr ha ht hj, List.map_map]
  apply List.map_congr_left
  intro ts hts
  rw [Function.comp_apply, pairs_dataLabel hg, List.map_map]
  refine congrArg (Prod.mk _) (List.map_congr_left fun us hus => ?_)
  rw [Function.comp_apply, pairs_dataLabel hh, cellOf_dataLabel hg hh
    (length_of_mem_classTexts hts) (length_of_mem_classTexts hus)]

theorem part_data_total (ho : o.columnTotal = true) (hi : d.rows[i]? = some g) :
    t.part (.data i) .total = (rowTexts r d o g).map fun ts =>
      (g.zip ts, [([(totalId, "")], r.total o (r.showing d o g ts))]) := by
  have hg := ids_ne_empty hr ha .rows g (List.mem_of_getElem? hi)
  rw [Table.part_eq (cells_eq hr ha ht), filter_rows_data hr ha ht hi,
    filter_columns_total hr ha ht ho, List.map_map]
  apply List.map_congr_left
  intro ts hts
  have hcommon : r.common d o (dataLabel (depth (tableRows r d o)) i g ts)
      (totalLabel (depth (tableColumns r d o))) = r.showing d o g ts := by
    have hbelongs : r.belongs (dataLabel (depth (tableRows r d o)) i g ts) = r.shows g ts :=
      belongs_dataLabel hg (length_of_mem_classTexts hts) _ _
    unfold common
    simp only [hbelongs, belongs_totalLabel, Bool.and_true]
    rfl
  rw [Function.comp_apply, pairs_dataLabel hg, List.map_singleton, pairs_totalLabel, cellOf,
    if_neg (by simp [dataLabel]), hcommon]

/-- **The numbers in the part of two groups**: what those weigh together who show the texts of both. -/
theorem hasCell_iff (hi : d.rows[i]? = some g) (hj : d.columns[j]? = some h) (p q : Path) (x : Float) :
    t.HasCell i j p q x ↔ ∃ ts us, p = g.zip ts ∧ q = h.zip us ∧
      r.total o (r.counted d o g ts h us) = some x := by
  rw [Table.HasCell, part_data_data hr ha ht hi hj]
  constructor
  · rintro ⟨row, hrow, rfl, hcell⟩
    obtain ⟨ts, -, rfl⟩ := List.mem_map.mp hrow
    obtain ⟨us, -, hcell⟩ := List.mem_map.mp hcell
    obtain ⟨hq, hx⟩ := Prod.mk.inj hcell
    exact ⟨ts, us, rfl, hq.symm, hx⟩
  · rintro ⟨ts, us, rfl, rfl, hx⟩
    -- somebody shows the texts, so that both groups list them
    obtain ⟨k, hk, hincluded, hrow, hcolumn⟩ :=
      isSome_total_counted.mp (Option.isSome_iff_exists.mpr ⟨x, hx⟩)
    have hin : r.inColumns d o k = true := by
      rw [inColumns, Bool.or_eq_true]
      exact .inr (List.any_eq_true.mpr ⟨h, List.mem_of_getElem? hj, (shows_iff.mp hcolumn).1⟩)
    have hts : ts ∈ rowTexts r d o g :=
      ((lists_rowTexts r d o g).mem_iff ts).mpr ⟨k, hk, hincluded, hin, hrow⟩
    have hus : us ∈ columnTexts r d o h :=
      ((lists_columnTexts r d o h).mem_iff us).mpr ⟨k, hk, hincluded, rfl, hcolumn⟩
    exact ⟨_, List.mem_map_of_mem hts, rfl, List.mem_map.mpr ⟨us, hus, by rw [hx]⟩⟩

end Parts

/-! ## The table of two groups alone -/

/-- Of those who have answered all variables of a row group, those are included who have a weight,
whatever groups stand beside it. -/
theorem includes_of_answersAll (hg : g ∈ d.rows) (hne : g ≠ []) {k : Nat}
    (hk : r.answersAll g k = true) : r.includes d o k = (r.weightIn? o k).isSome := by
  have hrows : (d.rows.any fun g => g.any fun id => r.answered id k) = true := by
    obtain ⟨id, hid⟩ := List.exists_mem_of_ne_nil g hne
    exact List.any_eq_true.mpr
      ⟨g, hg, List.any_eq_true.mpr ⟨id, hid, List.all_eq_true.mp hk id hid⟩⟩
  rw [includes, hrows, Bool.true_and]

section Alone

variable {d' : Design} (hg : g ∈ d.rows) (hg' : g ∈ d'.rows) (hne : g ≠ [])
include hg hg' hne

theorem includes_and_shows (ts : List String) (k : Nat) :
    (r.includes d o k && r.shows g ts k) = (r.includes d' o k && r.shows g ts k) := by
  cases hs : r.shows g ts k with
  | false => rw [Bool.and_false, Bool.and_false]
  | true =>
    have hall := (shows_iff.mp hs).1
    rw [includes_of_answersAll hg hne hall, includes_of_answersAll hg' hne hall]

theorem counted_eq_of_mem_rows (ts : List String) (h : Group) (us : List String) :
    r.counted d o g ts h us = r.counted d' o g ts h us := by
  unfold counted
  congr 1
  funext k
  rw [← Bool.and_assoc, includes_and_shows hg hg' hne ts k, Bool.and_assoc]

theorem showing_eq_of_mem_rows (ts : List String) : r.showing d o g ts = r.showing d' o g ts := by
  unfold showing
  congr 1
  funext k
  exact includes_and_shows hg hg' hne ts k

/-- With a total column, a row group has the same rows beside other groups as alone. -/
theorem rowTexts_eq_of_mem_rows (ho : o.columnTotal = true) : rowTexts r d o g = rowTexts r d' o g := by
  have hin : ∀ (e : Design) (k : Nat), r.inColumns e o k = true := by
    intro e k
    rw [inColumns, ho, Bool.true_or]
  refine (lists_rowTexts r d o g).unique (lists_rowTexts r d' o g) (fun ts => ?_) fun ts _ => ?_
  · rw [(lists_rowTexts r d o g).mem_iff, (lists_rowTexts r d' o g).mem_iff]
    refine exists_congr fun k => and_congr_right fun _ => ?_
    have hsame := Bool.eq_iff_iff.mp (includes_and_shows (r := r) (o := o) hg hg' hne ts k)
    rw [Bool.and_eq_true, Bool.and_eq_true] at hsame
    simp only [hin, true_and]
    exact hsame
  · simp only [firstAnswers, includes_and_shows (r := r) (o := o) hg hg' hne ts]

end Alone

theorem accepted_alone (ha : Accepted r d o) (hi : d.rows[i]? = some g) (hj : d.columns[j]? = some h)
    {additional : Option (List Group)} (hadditional : additional = none ∨ additional = d.additional) :
    Accepted r { rows := [g], columns := [h], additional } o where
  rows_ne_nil := List.cons_ne_nil _ _
  columns_ne_nil := List.cons_ne_nil _ _
  group axis g' hg' := by
    cases axis with
    | rows =>
      rw [List.mem_singleton.mp hg']
      exact ha.group .rows g (List.mem_of_getElem? hi)
    | columns =>
      rw [List.mem_singleton.mp hg']
      exact ha.group .columns h (List.mem_of_getElem? hj)
    | additional =>
      rcases hadditional with rfl | rfl
      · exact nomatch hg'
      · exact ha.group .additional g' hg'
  weight := ha.weight

/-- **Stacked groups leave each other alone.** Two groups have the same numbers under the same pairs as in a
table of their own, and the same rows if there is a total column. -/
theorem build_stacked (hr : r.Reachable) (hb : build r d o = .ok t) (hi : d.rows[i]? = some g)
    (hj : d.columns[j]? = some h) {additional : Option (List Group)}
    (hadditional : additional = none ∨ additional = d.additional) :
    ∃ s, build r { rows := [g], columns := [h], additional } o = .ok s ∧
      (∀ p q x, t.HasCell i j p q x ↔ s.HasCell 0 0 p q x) ∧
      (o.columnTotal = true → t.part (.data i) .total = s.part (.data 0) .total) := by
  obtain ⟨ha, ht⟩ := build_eq_ok_iff.mp hb
  have ha' := accepted_alone ha hi hj hadditional
  have hg := List.mem_of_getElem? hi
  have hne := (ha.group .rows g hg).1
  have hg' : g ∈ ({ rows := [g], columns := [h], additional } : Design).rows :=
    List.mem_singleton_self g
  refine ⟨_, build_eq_ok_iff.mpr ⟨ha', rfl⟩, fun p q x => ?_, fun ho => ?_⟩
  · rw [hasCell_iff hr.valid ha ht hi hj, hasCell_iff hr.valid ha' rfl rfl rfl]
    simp only [counted_eq_of_mem_rows hg hg' hne]
  · rw [part_data_total hr.valid ha ht ho hi, part_data_total hr.valid ha' rfl ho rfl,
      rowTexts_eq_of_mem_rows hg hg' hne ho]
    simp only [showing_eq_of_mem_rows hg hg' hne]

/-- Both variables of the sample stacked on both axes. The third respondent answered only the second. -/
def stackedDesign : Design where
  rows := [["sex"], ["pet"]]
  columns := [["pet"], ["sex"]]

theorem accepted_stackedDesign : Accepted sample stackedDesign {} :=
  accepted_of_sampleIds (by decide) (by decide) (by intro axis; cases axis <;> decide) rfl

/-- The stacked table includes one respondent more than the table of its first groups, and has the same
number in their part. -/
theorem build_stacked_sample : ∃ t s, build sample stackedDesign {} = .ok t ∧
    build sample sampleDesign {} = .ok s ∧
    sample.includedRespondents stackedDesign {} = [0, 1, 2] ∧
    sample.includedRespondents sampleDesign {} = [0, 1] ∧
    t.HasCell 0 0 [("sex", "f")] [("pet", "dog")] 2.0 ∧
    s.HasCell 0 0 [("sex", "f")] [("pet", "dog")] 2.0 ∧
    t.part (.data 0) .total = s.part (.data 0) .total := by
  have hb := build_eq_ok_iff.mpr ⟨accepted_stackedDesign, rfl⟩
  obtain ⟨s, hs, hcells, htotals⟩ := build_stacked reachable_sample hb
    (i := 0) (j := 0) rfl rfl (.inl rfl)
  have hcell := (hasCell_iff reachable_sample.valid accepted_stackedDesign rfl
    (i := 0) (j := 0) rfl rfl [("sex", "f")] [("pet", "dog")] 2.0).mpr
    ⟨["f"], ["dog"], rfl, rfl, by decide⟩
  exact ⟨_, s, hb, hs, by decide, by decide, hcell, (hcells _ _ _).mp hcell, htotals rfl⟩

end Tabulation

end SurveyTables
