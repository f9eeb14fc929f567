import SurveyTables.Proofs.Responses.Reordering
import SurveyTables.Proofs.Tabulation.ByLabels
import SurveyTables.Proofs.Tabulation.Selection

/-!
# The order of the respondents

The rows and columns of a table do not hang on the order of the respondents, as long as the words of the
answers tell these apart. The weights of a cell are the same, but they may be added up in another order.

* `Responses.Faithful`: the words tell the answers to a variable apart;
* `answers_eq_of_shows`: then whoever shows the texts of a class first gave the same answers;
* **`classTexts_eq`**: so the texts of a group are listed in the same order;
* **`perm_weights`**, `cellOf_eq_of_unweighted`: the weights of a cell are the same up to their order, and
  without a weight variable so is their sum;
* `SameUpToOrder`, **`build_of_reordered`**: the table of the reordered respondents.
-/

namespace SurveyTables

namespace Responses

/-- The words tell the answers to the variable apart: two answers with the same words are level in the
order of answers. -/
def Faithful (r : Responses) (id : String) : Prop :=
  ∀ k < r.respondents, ∀ k' < r.respondents, r.answered id k = true → r.answered id k' = true →
    (r.answer id k).display = (r.answer id k').display →
    (r.answer id k).order (r.answer id k') = .eq

variable {r r' : Responses} {d : Design} {o : Options} {order : List Nat}

theorem Reorders.agree (h : Reorders r r' order) {k k' : Nat} (hk : order[k']? = some k) :
    Agree r r' d o k k' :=
  fun id _ => h.answer id k k' hk

theorem Agree.belongs_eq {k k' : Nat} (h : Agree r r' d o k k') (axis : Axis) {l : Label}
    (hl : ∀ i, l.kind = .data i → l.ids ∈ d.groups axis) : r'.belongs l k' = r.belongs l k := by
  unfold belongs
  split
  · next i hi => exact h.shows_eq (hl i hi) _
  · rfl
  · rfl

end Responses

namespace Tabulation

open Responses

variable {r r' : Responses} {d : Design} {o : Options} {t t' : Table Float} {order : List Nat}

/-! ## The texts of the groups -/

theorem exists_firstAnswers {included : Nat → Bool} {g : Group} {ts : List String}
    (h : ∃ k < r.respondents, included k = true ∧ r.shows g ts k = true) :
    ∃ k < r.respondents, r.shows g ts k = true ∧ r.firstAnswers included g ts = r.answers g k := by
  obtain ⟨k, hk, hincluded, hshows⟩ := h
  have hsome : ((List.range r.respondents).find? fun k => included k && r.shows g ts k).isSome := by
    rw [List.find?_isSome]
    exact ⟨k, List.mem_range.mpr hk, by rw [hincluded, hshows]; rfl⟩
  obtain ⟨k₀, hfirst⟩ := Option.isSome_iff_exists.mp hsome
  have hk₀ := List.find?_some hfirst
  rw [Bool.and_eq_true] at hk₀
  refine ⟨k₀, List.mem_range.mp (List.mem_of_find?_eq_some hfirst), hk₀.2, ?_⟩
  rw [firstAnswers, hfirst]

theorem answers_eq_of_shows {g : Group} (hfaithful : ∀ id ∈ g, r.Faithful id) {ts : List String}
    {k k' : Nat} (hk : k < r.respondents) (hk' : k' < r.respondents) (hs : r.shows g ts k = true)
    (hs' : r.shows g ts k' = true) : r.answers g k = r.answers g k' := by
  obtain ⟨hall, htexts⟩ := shows_iff.mp hs
  obtain ⟨hall', htexts'⟩ := shows_iff.mp hs'
  have hdisplay := List.map_inj_left.mp (htexts.trans htexts'.symm)
  apply List.map_congr_left
  intro id hid
  exact Std.LawfulEqCmp.eq_of_compare (hfaithful id hid k hk k' hk'
    (List.all_eq_true.mp hall id hid) (List.all_eq_true.mp hall' id hid) (hdisplay id hid))

section Texts

variable (h : Reorders r r' order)
include h

/-- **The texts of a group are listed in the same order.** -/
theorem classTexts_eq {axis : Axis} {g : Group} (hg : g ∈ d.groups axis)
    (hfaithful : ∀ id ∈ g, r.Faithful id) {counting counting' : Nat → Bool}
    (hcounting : ∀ k k', order[k']? = some k → counting' k' = counting k) :
    classTexts r' (r'.includes d o) counting' g = classTexts r (r.includes d o) counting g := by
  have hlists := lists_classTexts r (r.includes d o) counting g
  have hlists' := lists_classTexts r' (r'.includes d o) counting' g
  have hincludes : ∀ k k', order[k']? = some k → r'.includes d o k' = r.includes d o k :=
    fun k k' hk => (h.agree hk).includes_eq
  have hshows : ∀ us k k', order[k']? = some k → r'.shows g us k' = r.shows g us k :=
    fun us k k' hk => (h.agree (d := d) (o := o) hk).shows_eq hg us
  refine hlists'.unique hlists (fun us => ?_) fun us hus => ?_
  · rw [hlists.mem_iff, hlists'.mem_iff]
    apply h.exists_iff
    intro k k' hk
    rw [hincludes k k' hk, hcounting k k' hk, hshows us k k' hk]
  · -- the first who shows the texts may be somebody else, but with the same answers
    obtain ⟨k', hk', hincluded', -, hs'⟩ := (hlists'.mem_iff us).mp hus
    obtain ⟨k₁', hk₁', hs₁', hfirst'⟩ := exists_firstAnswers ⟨k', hk', hincluded', hs'⟩
    obtain ⟨k, hk⟩ := h.exists_getElem? hk'
    obtain ⟨k₁, hk₁⟩ := h.exists_getElem? hk₁'
    have hincluded : r.includes d o k = true := by rw [← hincludes k k' hk, hincluded']
    have hs : r.shows g us k = true := by rw [← hshows us k k' hk, hs']
    have hs₁ : r.shows g us k₁ = true := by rw [← hshows us k₁ k₁' hk₁, hs₁']
    obtain ⟨k₀, hk₀, hs₀, hfirst⟩ :=
      exists_firstAnswers ⟨k, (h.lt_of_getElem? hk).1, hincluded, hs⟩
    rw [hfirst, hfirst', (h.agree (d := d) (o := o) hk₁).answers_eq hg]
    exact answers_eq_of_shows hfaithful hk₀ (h.lt_of_getElem? hk₁).1 hs₀ hs₁

/-! ## The labels -/

theorem rowTexts_eq {g : Group} (hg : g ∈ d.rows) (hfaithful : ∀ id ∈ g, r.Faithful id) :
    rowTexts r' d o g = rowTexts r d o g :=
  classTexts_eq h (show g ∈ d.groups .rows from hg) hfaithful fun _ _ hk => (h.agree hk).inColumns_eq

theorem columnTexts_eq {g : Group} (hg : g ∈ d.columns) (hfaithful : ∀ id ∈ g, r.Faithful id) :
    columnTexts r' d o g = columnTexts r d o g :=
  classTexts_eq h (show g ∈ d.groups .columns from hg) hfaithful fun _ _ _ => rfl

theorem map_label_tableRows_eq (hfaithful : ∀ g ∈ d.rows, ∀ id ∈ g, r.Faithful id) (depth : Nat) :
    (tableRows r' d o).map (label depth) = (tableRows r d o).map (label depth) := by
  have htexts := dataLabels_congr depth fun g hg => rowTexts_eq (o := o) h hg (hfaithful g hg)
  rw [labels_tableRows, labels_tableRows]
  exact congrArg (· ++ _) htexts

theorem map_label_tableColumns_eq (hfaithful : ∀ g ∈ d.columns, ∀ id ∈ g, r.Faithful id)
    (depth : Nat) : (tableColumns r' d o).map (label depth) = (tableColumns r d o).map (label depth) := by
  have htexts := dataLabels_congr depth fun g hg => columnTexts_eq (o := o) h hg (hfaithful g hg)
  rw [labels_tableColumns, labels_tableColumns]
  exact congrArg (_ ++ ·) htexts

/-! ## The cells -/

/-- **The weights of a cell are the same up to their order.** -/
theorem perm_weights {row column : Label} (hrow : ∀ i, row.kind = .data i → row.ids ∈ d.rows)
    (hcolumn : ∀ j, column.kind = .data j → column.ids ∈ d.columns) :
    ((r'.common d o row column).map (r'.weightIn o)).Perm
      ((r.common d o row column).map (r.weightIn o)) := by
  refine h.perm_map_filter (fun k k' hk => ?_) fun k k' hk => (h.agree (d := d) hk).weightIn_eq
  rw [(h.agree hk).includes_eq, (h.agree (o := o) hk).belongs_eq .rows hrow,
    (h.agree (o := o) hk).belongs_eq .columns hcolumn]

theorem isEmpty_common_eq {row column : Label} (hrow : ∀ i, row.kind = .data i → row.ids ∈ d.rows)
    (hcolumn : ∀ j, column.kind = .data j → column.ids ∈ d.columns) :
    (r'.common d o row column).isEmpty = (r.common d o row column).isEmpty := by
  have hperm := perm_weights (o := o) h hrow hcolumn
  rw [← List.isEmpty_map (f := r'.weightIn o), hperm.isEmpty_eq, List.isEmpty_map]

theorem isSome_cellOf_eq {row column : Label} (hrow : ∀ i, row.kind = .data i → row.ids ∈ d.rows)
    (hcolumn : ∀ j, column.kind = .data j → column.ids ∈ d.columns) :
    (r'.cellOf d o row column).isSome = (r.cellOf d o row column).isSome := by
  rw [cellOf, cellOf]
  split
  · rfl
  · rw [isSome_total, isSome_total, isEmpty_common_eq h hrow hcolumn]

theorem cellOf_eq_of_unweighted (ho : o.weight = none) {row column : Label}
    (hrow : ∀ i, row.kind = .data i → row.ids ∈ d.rows)
    (hcolumn : ∀ j, column.kind = .data j → column.ids ∈ d.columns) :
    r'.cellOf d o row column = r.cellOf d o row column := by
  have hone : ∀ (s : Responses) (ks : List Nat),
      ks.map (s.weightIn o) = List.replicate ks.length 1.0 := by
    intro s ks
    rw [List.map_eq_replicate_iff]
    intro k _
    rw [weightIn, weightIn?, ho, Option.getD_some]
  have hweights : (r'.common d o row column).map (r'.weightIn o) =
      (r.common d o row column).map (r.weightIn o) := by
    have hperm := perm_weights (o := o) h hrow hcolumn
    rw [hone r] at hperm ⊢
    exact List.perm_replicate.mp hperm
  rw [cellOf, cellOf, total, total, weigh, weigh, hweights, isEmpty_common_eq h hrow hcolumn]

end Texts

/-! ## The table -/

/-- The table has the same labels, texts and warnings, and is empty in the same places. Each of its
cells adds up the same weights, perhaps in another order. -/
structure SameUpToOrder (r r' : Responses) (d : Design) (o : Options) (t t' : Table Float) : Prop where
  rows_eq : t'.rows = t.rows
  columns_eq : t'.columns = t.columns
  statistic_eq : t'.statistic = t.statistic
  caption_eq : t'.caption = t.caption
  warnings_eq : t'.warnings = t.warnings
  filled_eq : t'.cells.map (·.map Option.isSome) = t.cells.map (·.map Option.isSome)
  cell_eq : ∀ x y row column, t.rows[x]? = some row → t.columns[y]? = some column →
    t.cell x y = r.cellOf d o row column ∧ t'.cell x y = r'.cellOf d o row column
  perm : ∀ row ∈ t.rows, ∀ column ∈ t.columns,
    ((r'.common d o row column).map (r'.weightIn o)).Perm
      ((r.common d o row column).map (r.weightIn o))

section Table

variable (h : Reorders r r' order) (hr : r.Valid) (hr' : r'.Valid) (ha : Accepted r d o)
  (hfaithful : ∀ g ∈ d.rows ++ d.columns, ∀ id ∈ g, r.Faithful id)
  (ht : t = tabulate r d o (weights r d o)) (ht' : t' = tabulate r' d o (weights r' d o))
include h hr hr' ha hfaithful ht ht'

theorem sameUpToOrder_of_reorders : SameUpToOrder r r' d o t t' := by
  have ha' := ha.of_contains fun id _ => h.contains id
  have hrows : t'.rows = t.rows := by
    rw [(tabulate_eq hr ha ht).1, (tabulate_eq hr' ha' ht').1]
    exact labels_eq_of_map_label
      (map_label_tableRows_eq h fun g hg => hfaithful g (List.mem_append_left _ hg))
  have hcolumns : t'.columns = t.columns := by
    rw [(tabulate_eq hr ha ht).2.1, (tabulate_eq hr' ha' ht').2.1]
    exact labels_eq_of_map_label
      (map_label_tableColumns_eq h fun g hg => hfaithful g (List.mem_append_right _ hg))
  refine ⟨hrows, hcolumns, ?_, ?_, ?_, ?_, ?_, ?_⟩
  · rw [ht, ht']
    rfl
  · rw [ht, ht']
    rfl
  · rw [ht, ht', warnings_tabulate hr ha, warnings_tabulate hr' ha']
  · rw [cells_eq hr ha ht, cells_eq hr' ha' ht', hrows, hcolumns, List.map_map, List.map_map]
    refine List.map_congr_left fun row hrow => ?_
    rw [Function.comp_apply, Function.comp_apply, List.map_map, List.map_map]
    refine List.map_congr_left fun column hcolumn => ?_
    exact isSome_cellOf_eq h (fun _ => ids_mem_rows hr ha ht hrow)
      fun _ => ids_mem_columns hr ha ht hcolumn
  · intro x y row column hx hy
    exact ⟨cell_eq_cellOf hr ha ht hx hy,
      cell_eq_cellOf hr' ha' ht' (by rwa [hrows]) (by rwa [hcolumns])⟩
  · intro row hrow column hcolumn
    exact perm_weights h (fun _ => ids_mem_rows hr ha ht hrow)
      fun _ => ids_mem_columns hr ha ht hcolumn

theorem eq_of_reorders_of_unweighted (ho : o.weight = none) : t' = t := by
  have hsame := sameUpToOrder_of_reorders h hr hr' ha hfaithful ht ht'
  refine Table.ext hsame.rows_eq hsame.columns_eq ?_ hsame.statistic_eq hsame.caption_eq
    hsame.warnings_eq
  rw [cells_eq hr ha ht, cells_eq hr' (ha.of_contains fun id _ => h.contains id) ht', hsame.rows_eq,
    hsame.columns_eq]
  refine List.map_congr_left fun row hrow => List.map_congr_left fun column hcolumn => ?_
  exact cellOf_eq_of_unweighted h ho (fun _ => ids_mem_rows hr ha ht hrow)
    fun _ => ids_mem_columns hr ha ht hcolumn

end Table

/-- **The order of the respondents does not matter**, if words tell answers apart. Each cell adds up the
same weights, and without a weight variable the table is the same. -/
theorem build_of_reordered (hr : r.Reachable) (hb : build r d o = .ok t)
    (hfaithful : ∀ g ∈ d.rows ++ d.columns, ∀ id ∈ g, r.Faithful id)
    (hperm : order.Perm (List.range r.respondents)) :
    (∃ r', ofColumns (r.reordered order) = .ok r' ∧ r'.Reachable ∧
      r'.columns.toList = r.reordered order) ∧
    ∀ r' : Responses, r'.Reachable → r'.columns.toList = r.reordered order →
      ∃ t', build r' d o = .ok t' ∧ SameUpToOrder r r' d o t t' ∧ (o.weight = none → t' = t) := by
  obtain ⟨ha, ht⟩ := build_eq_ok_iff.mp hb
  refine ⟨hr.valid.exists_responses_of_reordered order, fun r' hr' hcolumns => ?_⟩
  have hsome : r.columns.toList ≠ [] := by
    obtain ⟨id, -, hid⟩ := ha.exists_referenced
    rw [Responses.contains, hr.valid.index.contains_iff] at hid
    obtain ⟨c, hc, -⟩ := List.mem_map.mp hid
    exact List.ne_nil_of_mem hc
  have h := hr.valid.reorders hr'.valid hcolumns hperm hsome
  exact ⟨_, build_eq_ok_iff.mpr ⟨ha.of_contains fun id _ => h.contains id, rfl⟩,
    sameUpToOrder_of_reorders h hr.valid hr'.valid ha hfaithful ht rfl,
    eq_of_reorders_of_unweighted h hr.valid hr'.valid ha hfaithful ht rfl⟩

/-- Three ballots of different weight. -/
def ballots (a b c : Float) : Responses where
  columns := (Catalog.empty.push
      { id := "party", answers := #[.text "red", .text "red", .text "red"] }).push
    { id := "weight", answers := #[.number a, .number b, .number c] }
  respondents := 3

/-- Parties against themselves. -/
def ballotsDesign : Design where
  rows := [["party"]]
  columns := [["party"]]

/-- Votes count with their weights. -/
def ballotsOptions : Options where
  weight := some "weight"

set_option maxRecDepth 100000 in
theorem reachable_ballots (a b c : Float) : (ballots a b c).Reachable := by
  have h : ofRows ["party", "weight"] [[.text "red", .number a], [.text "red", .number b],
      [.text "red", .number c]] = .ok (ballots a b c) := by
    cbv
  exact .ofRows h

set_option maxRecDepth 100000 in
theorem accepted_ballots (a b c : Float) : Accepted (ballots a b c) ballotsDesign ballotsOptions where
  rows_ne_nil := by simp [ballotsDesign]
  columns_ne_nil := by simp [ballotsDesign]
  group := by
    have hparty : (ballots a b c).contains "party" = true := by cbv
    intro axis
    cases axis <;> simp [Design.groups, ballotsDesign, hparty]
  weight := by
    have hweight : (ballots a b c).contains "weight" = true := by cbv
    simp [ballotsOptions, hweight]

theorem faithful_ballots (a b c : Float) : (ballots a b c).Faithful "party" := by
  have hred : ∀ k < 3, (ballots a b c).answer "party" k = .text "red" := by
    intro k hk
    interval_cases k <;> rfl
  intro k hk k' hk' _ _ _
  rw [hred k hk, hred k' hk']
  exact Std.ReflCmp.compare_self

set_option maxRecDepth 100000 in
/-- In the other order the same weights add up to a slightly smaller number. -/
theorem build_of_reordered_ballots : ∃ t t' x,
    build (ballots 0.1 0.2 0.3) ballotsDesign ballotsOptions = .ok t ∧
    (ballots 0.1 0.2 0.3).Faithful "party" ∧
    (ballots 0.3 0.2 0.1).columns.toList = (ballots 0.1 0.2 0.3).reordered [2, 1, 0] ∧
    build (ballots 0.3 0.2 0.1) ballotsDesign ballotsOptions = .ok t' ∧
    t'.rows = t.rows ∧ t'.columns = t.columns ∧
    t.cell x 0 = some 0.6000000000000001 ∧ t'.cell x 0 = some 0.6 := by
  have ha := accepted_ballots 0.1 0.2 0.3
  have hr := reachable_ballots 0.1 0.2 0.3
  have hb := build_eq_ok_iff.mpr ⟨ha, rfl⟩
  have hperm : [2, 1, 0].Perm (List.range (ballots 0.1 0.2 0.3).respondents) := by decide
  obtain ⟨-, hbuild⟩ :=
    build_of_reordered hr hb (by simp [ballotsDesign, faithful_ballots]) hperm
  obtain ⟨t', hb', hsame, -⟩ := hbuild (ballots 0.3 0.2 0.1) (reachable_ballots _ _ _) rfl
  have hrows := rows_eq hr.valid ha rfl
  have hcolumns := columns_eq hr.valid ha rfl
  obtain ⟨hcell, hcell'⟩ := hsame.cell_eq _ 0 _ _
    ((congrArg (·[_]?) hrows).trans List.getElem?_concat_length) ((congrArg (·[0]?) hcolumns).trans rfl)
  have hfaithful := faithful_ballots 0.1 0.2 0.3
  refine ⟨_, t', _, hb, hfaithful, rfl, hb', hsame.rows_eq, hsame.columns_eq, hcell.trans ?_,
    hcell'.trans ?_⟩
  · decide
  · decide

end Tabulation

end SurveyTables
