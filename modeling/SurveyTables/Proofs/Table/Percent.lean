import SurveyTables.Table.Percent

/-!
# Dividing by the base row

* `share?_eq_some_iff`: when a cell has a share of its base;
* `Table.toPercent`, `percent_of_baseIndex`: the column percentages of a table with a base row;
  `percent_of_columnPercent`: they are not taken twice;
* `getElem?_toPercent_base`, **`cell_toPercent`**: the base row stays, and all other cells are divided;
* `map_length_toPercent`: the rows keep their lengths if they are as long as the base row.
-/

namespace SurveyTables.Table

variable {α : Type} [Zero α] [Div α] [BEq α] {t : Table α} {base x y : Nat}

theorem share?_eq_some_iff {cell whole : Option α} {share : α} : share? cell whole = some share ↔
    ∃ a b, cell = some a ∧ whole = some b ∧ (b != 0) = true ∧ share = a / b := by
  cases cell with
  | none => simp [share?]
  | some a =>
    cases whole with
    | none => simp [share?]
    | some b =>
      rw [share?]
      split
      · next hb =>
        constructor
        · intro h
          exact ⟨a, b, rfl, rfl, hb, (Option.some.inj h).symm⟩
        · rintro ⟨_, _, ⟨⟩, ⟨⟩, -, rfl⟩
          rfl
      · next hb =>
        constructor
        · intro h
          contradiction
        · rintro ⟨_, _, ⟨⟩, ⟨⟩, hne, -⟩
          exact absurd hne hb

theorem path_percentLabel (l : Label) : (percentLabel l).path = l.path := by
  rw [percentLabel]
  split <;> rfl

theorem kind_percentLabel (l : Label) : (percentLabel l).kind = l.kind := by
  rw [percentLabel]
  split <;> rfl

/-- The table with every cell divided by its base. -/
def toPercent (t : Table α) (base : Nat) : Table α :=
  { t with
    rows := t.rows.map percentLabel
    cells := percentCells base t.cells
    statistic := .columnPercent }

theorem percent_of_baseIndex (h : t.statistic ≠ .columnPercent) (hbase : t.baseIndex? = some base) :
    t.percent = .ok (t.toPercent base) := by
  rw [percent, if_neg h, hbase]
  rfl

theorem percent_of_columnPercent (h : t.statistic = .columnPercent) :
    t.percent = .error .alreadyPercent := by
  rw [percent, if_pos h]

theorem getElem?_percentCells (cells : List (List (Option α))) : (percentCells base cells)[x]? =
    cells[x]?.map fun row =>
      if x = base then row else List.zipWith share? row (cells[base]?.getD []) := by
  rw [percentCells, List.getElem?_mapIdx]

theorem getElem?_toPercent_base (t : Table α) : (t.toPercent base).cells[base]? = t.cells[base]? := by
  rw [toPercent, getElem?_percentCells]
  simp

theorem join_getElem?_zipWith_share? (row whole : List (Option α)) :
    (List.zipWith share? row whole)[y]?.join = share? row[y]?.join whole[y]?.join := by
  rw [List.getElem?_zipWith]
  cases hrow : row[y]? with
  | none => rfl
  | some cell =>
    cases hwhole : whole[y]? with
    | none => cases cell <;> rfl
    | some base => rfl

/-- **Every cell outside the base row is divided by its base.** -/
theorem cell_toPercent (hx : x ≠ base) (t : Table α) :
    (t.toPercent base).cell x y = share? (t.cell x y) (t.cell base y) := by
  have hbase : t.cell base y = (t.cells[base]?.getD [])[y]?.join := by
    rw [cell]
    cases t.cells[base]? <;> rfl
  rw [hbase, cell, cell, toPercent, getElem?_percentCells]
  cases t.cells[x]? with
  | none => rfl
  | some row => simp only [Option.map_some, Option.bind_some, if_neg hx, join_getElem?_zipWith_share?]

theorem map_length_toPercent (h : ∀ row ∈ t.cells, row.length = (t.cells[base]?.getD []).length) :
    (t.toPercent base).cells.map List.length = t.cells.map List.length := by
  refine List.ext_getElem? fun x => ?_
  rw [toPercent, List.getElem?_map, getElem?_percentCells, List.getElem?_map, Option.map_map]
  refine Option.map_congr fun row hrow => ?_
  have hlength := h row (List.mem_of_getElem? hrow)
  rw [Function.comp_apply]
  split
  · rfl
  · rw [List.length_zipWith, ← hlength, Nat.min_self]

end SurveyTables.Table
