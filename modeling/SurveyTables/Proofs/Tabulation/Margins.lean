import SurveyTables.Proofs.Answer.Display
import SurveyTables.Proofs.Number.Sums
import SurveyTables.Proofs.Tabulation.ColumnShares

/-!
# Cells and their margins

Whoever is counted in a cell is counted in the base of its column and in the total of its row as well, where
the same weights are added in the same order, and more of them. So if no weight is negative, no cell exceeds
its margins. This needs nothing of the weights but the order of sums of doubles.

* `weightIn_ne_nan`: no weight is NaN;
* `common_sublist`: with more respondents in a row and in a column, more are counted in the cell;
* **`cellOf_le`**: their weights are not less together;
* `Table.AtMost`: a cell that does not exceed another;
* **`build_atMost_margins`**: no cell exceeds its margins.
-/

namespace SurveyTables

theorem Answer.weight?_ne_nan {a : Answer} {x : Float} (h : a.weight? = some x) : x ≠ Float.nan := by
  cases a with
  | number y =>
    rw [weight?, Option.ite_none_left_eq_some] at h
    obtain ⟨hnan, hy⟩ := h
    obtain rfl := Option.some.inj hy
    exact ne_nan_of_isNaN (eq_false_of_ne_true hnan)
  | boolean b =>
    obtain rfl := Option.some.inj h
    cases b <;> exact ne_nan_of_isNaN (by decide +kernel)
  | missing => exact nomatch h
  | text s => exact nomatch h

namespace Responses

variable {r : Responses} {d : Design} {o : Options}

theorem weightIn_ne_nan (r : Responses) (o : Options) (k : Nat) : r.weightIn o k ≠ Float.nan := by
  rw [weightIn]
  cases h : r.weightIn? o k with
  | none => exact Answer.ne_nan_of_isNaN (by decide +kernel)
  | some x =>
    rw [Option.getD_some]
    rw [weightIn?] at h
    split at h
    · exact Answer.weight?_ne_nan h
    · obtain rfl := Option.some.inj h
      exact Answer.ne_nan_of_isNaN (by decide +kernel)

theorem nonneg_of_mem_map_common
    (hweights : ∀ k < r.respondents, r.includes d o k = true → ¬ r.weightIn o k < 0) {row column : Label}
    {x : Float} (hx : x ∈ (r.common d o row column).map (r.weightIn o)) : 0 ≤ x := by
  obtain ⟨k, hk, rfl⟩ := List.mem_map.mp hx
  rw [common, List.mem_filter, List.mem_range, Bool.and_eq_true] at hk
  exact Number.nonneg_of_not_lt (weightIn_ne_nan r o k) (hweights k hk.1 hk.2.1)

theorem eq_foldl_of_sumOf {row column : Label} {v : Float}
    (hv : r.sumOf d o (r.weightIn o) row column = some v) :
    v = ((r.common d o row column).map (r.weightIn o)).foldl (· + ·) 0 := by
  rw [← getD_sumOf, hv, Option.getD_some]

section Larger

variable {row row' column column' : Label}
  (hrow : ∀ k, r.belongs row k = true → r.belongs row' k = true)
  (hcolumn : ∀ k, r.belongs column k = true → r.belongs column' k = true)
include hrow hcolumn

theorem common_sublist (d : Design) (o : Options) :
    (r.common d o row column).Sublist (r.common d o row' column') := by
  refine List.monotone_filter_right _ fun k hk => ?_
  simp only [Bool.and_eq_true] at hk ⊢
  exact ⟨hk.1, hrow k hk.2.1, hcolumn k hk.2.2⟩

/-- A cell that has a number has one in a larger row and column too. -/
theorem isSome_sumOf_of_larger {α : Type} [Zero α] [Add α] (weight : Nat → α)
    (hcorner : row.kind = .base ∧ column.kind = .total → row'.kind = .base ∧ column'.kind = .total)
    (h : (r.sumOf d o weight row column).isSome = true) :
    (r.sumOf d o weight row' column').isSome = true := by
  simp only [isSome_sumOf, Bool.or_eq_true, decide_eq_true_iff, Bool.not_eq_true',
    List.isEmpty_eq_false_iff] at h ⊢
  refine h.imp hcorner fun hne hnil => hne ?_
  have hsub := common_sublist hrow hcolumn d o
  rw [hnil] at hsub
  exact List.sublist_nil.mp hsub

/-- **A cell does not exceed that of a larger row and column**, if no weight is negative. -/
theorem cellOf_le
    (hcorner : row.kind = .base ∧ column.kind = .total → row'.kind = .base ∧ column'.kind = .total)
    (hweights : ∀ k < r.respondents, r.includes d o k = true → ¬ r.weightIn o k < 0) {v : Float}
    (hv : r.cellOf d o row column = some v) : ∃ w, r.cellOf d o row' column' = some w ∧ v ≤ w := by
  rw [cellOf_eq_sumOf] at hv ⊢
  obtain ⟨w, hw⟩ := Option.isSome_iff_exists.mp
    (isSome_sumOf_of_larger hrow hcolumn (r.weightIn o) hcorner (Option.isSome_of_eq_some hv))
  refine ⟨w, hw, ?_⟩
  have hzero : (0 : Float) ≤ 0 := by decide +kernel
  rw [eq_foldl_of_sumOf hv, eq_foldl_of_sumOf hw]
  exact Number.foldl_add_le_of_sublist ((common_sublist hrow hcolumn d o).map _)
    (fun x hx => nonneg_of_mem_map_common hweights hx) hzero hzero hzero

end Larger

end Responses

/-- If there is a number in the first cell, there is one in the second, and the first does not exceed it. -/
def Table.AtMost (t : Table Float) (x y x' y' : Nat) : Prop :=
  ∀ v, t.cell x y = some v → ∃ w, t.cell x' y' = some w ∧ v ≤ w

namespace Tabulation

open Responses

variable {r : Responses} {d : Design} {o : Options} {t : Table Float} {base : Nat}

section Margins

variable (hr : r.Valid) (ha : Accepted r d o) (ht : t = tabulate r d o (weights r d o))
  (hweights : ∀ k < r.respondents, r.includes d o k = true → ¬ r.weightIn o k < 0)
include hr ha ht hweights

theorem atMost_base (hbase : t.HasBaseRow base) (x y : Nat) : t.AtMost x y base y := by
  intro v hv
  obtain ⟨row', hlast, hkind⟩ := hbase.exists_row
  rw [cell_eq_bind (cells_eq hr ha ht)] at hv ⊢
  obtain ⟨row, hx, hv⟩ := Option.bind_eq_some_iff.mp hv
  obtain ⟨column, hy, hv⟩ := Option.bind_eq_some_iff.mp hv
  rw [hlast, hy]
  refine cellOf_le (fun k _ => belongs_of_base hkind k) (fun _ hk => hk) ?_ hweights hv
  exact fun hcorner => ⟨hkind, hcorner.2⟩

theorem atMost_total {column : Label} (hfirst : t.columns[0]? = some column)
    (hkind : column.kind = .total) (x y : Nat) : t.AtMost x y x 0 := by
  intro v hv
  rw [cell_eq_bind (cells_eq hr ha ht)] at hv ⊢
  obtain ⟨row, hx, hv⟩ := Option.bind_eq_some_iff.mp hv
  obtain ⟨column', hy, hv⟩ := Option.bind_eq_some_iff.mp hv
  rw [hx, hfirst]
  refine cellOf_le (fun _ hk => hk) (fun k _ => belongs_of_total hkind k) ?_ hweights hv
  exact fun hcorner => ⟨hcorner.1, hkind⟩

end Margins

/-- **No cell exceeds its margins**, if no included respondent has a negative weight. Sums of doubles that
are not negative keep the order of the numbers that are added. -/
theorem build_atMost_margins (hr : r.Reachable) (hb : build r d o = .ok t)
    (hweights : ∀ k < r.respondents, r.includes d o k = true → ¬ r.weightIn o k < 0) :
    ∃ base, t.HasBaseRow base ∧ (∀ x y, t.AtMost x y base y) ∧
      (o.columnTotal = true → t.columns[0]?.map Label.kind = some .total ∧
        ∀ x y, t.AtMost x y x 0 ∧ t.AtMost x 0 base 0 ∧ t.AtMost base y base 0) := by
  obtain ⟨ha, ht⟩ := build_eq_ok_iff.mp hb
  have hbase := hasBaseRow hr.valid ha ht
  have hbases := atMost_base hr.valid ha ht hweights hbase
  refine ⟨_, hbase, hbases, fun ho => ?_⟩
  have hfirst : t.columns[0]? = some (totalLabel (depth (tableColumns r d o))) := by
    rw [columns_eq hr.valid ha ht, if_pos ho]
    rfl
  have htotals := atMost_total hr.valid ha ht hweights hfirst rfl
  refine ⟨by rw [hfirst]; rfl, fun x y => ⟨htotals x y, hbases x 0, htotals _ y⟩⟩

theorem weightIn_sample_nonneg : ∀ k < sample.respondents, sample.includes petDesign {} k = true →
    ¬ sample.weightIn {} k < 0 := by
  intro k _ _
  show ¬ (1.0 : Float) < 0
  decide +kernel

/-- Two of the three pets are dogs. -/
theorem build_atMost_margins_sample : ∃ t base, sample.Reachable ∧ build sample petDesign {} = .ok t ∧
    (∀ k < sample.respondents, sample.includes petDesign {} k = true → ¬ sample.weightIn {} k < 0) ∧
    t.cell 1 0 = some 2.0 ∧ t.cell base 0 = some 3.0 ∧ t.HasBaseRow base ∧ t.AtMost 1 1 base 1 ∧
    t.AtMost 1 1 1 0 ∧ t.AtMost 1 0 base 0 ∧ t.AtMost base 1 base 0 := by
  have hr := reachable_sample.valid
  have ha := accepted_petDesign
  have hb := build_eq_ok_iff.mpr ⟨ha, rfl⟩
  obtain ⟨base, hbase, hbases, htotals⟩ :=
    build_atMost_margins reachable_sample hb weightIn_sample_nonneg
  obtain ⟨-, hmargins⟩ := htotals rfl
  obtain ⟨hrow, htotal, hcorner⟩ := hmargins 1 1
  have htexts : rowTexts sample petDesign {} ["pet"] = [["cat"], ["dog"]] := rowTexts_petDesign true
  have hrows := rows_eq_of_single hr ha rfl rfl
  rw [htexts] at hrows
  have hcolumns := columns_eq hr ha rfl
  have hpet : ∀ id ∈ ["pet"], id ≠ "" := by simp
  have hdogs (depth : Nat) :
      sample.belongs (dataLabel depth 0 ["pet"] ["dog"]) = sample.shows ["pet"] ["dog"] :=
    belongs_dataLabel hpet (show ["dog"].length = ["pet"].length from rfl) depth 0
  obtain rfl : base = 2 := by
    have hlength := congrArg List.length hrows
    rw [hbase.length_rows] at hlength
    exact Nat.succ.inj hlength
  refine ⟨_, 2, reachable_sample, hb, weightIn_sample_nonneg, ?_, ?_, hbase, hbases 1 1, hrow, htotal,
    hcorner⟩ <;> rw [cell_eq_bind (cells_eq hr ha rfl), hrows, hcolumns]
  · show sample.cellOf petDesign {} (dataLabel _ 0 ["pet"] ["dog"]) (totalLabel _) = some 2.0
    rw [cellOf, common, hdogs]
    decide
  · show sample.cellOf petDesign {} (baseLabel _) (totalLabel _) = some 3.0
    decide

end Tabulation

end SurveyTables
