import SurveyTables.Tabulation.Tally

/-!
# What a tally holds

* `Tally.sumFrom`: weights added one after the other to what is there;
* `Tally.getElem?_count`: a respondent counted adds the weight once at every pair of lines taken part in;
* `weightsAt`: the weights of those who take part in a row and a column, in their order;
* **`getElem?_tally`**: a tally holds the sum of these weights at every row and column;
* `nodup_rowLines`, `data_mem_rowLines` and their like: in which lines a respondent takes part.
-/

namespace SurveyTables.Tabulation

namespace Tally

variable {α : Type} [Zero α] [Add α]

/-- The weights added in turn; where nothing is yet, the first is added to zero. -/
def sumFrom (start : Option α) (ws : List α) : Option α :=
  ws.foldl (fun sum w => some (sum.getD 0 + w)) start

theorem sumFrom_cons (start : Option α) (w : α) (ws : List α) :
    sumFrom start (w :: ws) = sumFrom (some (start.getD 0 + w)) ws := rfl

theorem sumFrom_some (x : α) (ws : List α) : sumFrom (some x) ws = some (ws.foldl (· + ·) x) := by
  induction ws generalizing x with
  | nil => rfl
  | cons w ws ih => rw [sumFrom_cons, ih]; rfl

theorem sumFrom_none (ws : List α) :
    sumFrom none ws = if ws = [] then none else some (ws.foldl (· + ·) 0) := by
  cases ws with
  | nil => rfl
  | cons w ws =>
    rw [sumFrom_cons, sumFrom_some, if_neg (by simp)]
    rfl

theorem isSome_sumFrom (start : Option α) (ws : List α) :
    (sumFrom start ws).isSome = (start.isSome || !ws.isEmpty) := by
  cases start with
  | none =>
    rw [sumFrom_none]
    cases ws <;> rfl
  | some x =>
    rw [sumFrom_some]
    rfl

theorem getD_sumFrom (start : Option α) (ws : List α) :
    (sumFrom start ws).getD 0 = ws.foldl (· + ·) (start.getD 0) := by
  cases start with
  | none =>
    rw [sumFrom_none]
    cases ws <;> rfl
  | some x => rw [sumFrom_some, Option.getD_some, Option.getD_some]

theorem getElem?_addAt (w : α) (t : Tally α) (p q : Line × Line) :
    (addAt w t p)[q]? = if p = q then some (t[q]?.getD 0 + w) else t[q]? := by
  rw [addAt, Std.HashMap.getElem?_insert, Std.HashMap.getD_eq_getD_getElem?]
  by_cases h : p = q
  · simp [h]
  · simp [h]

theorem getElem?_foldl_addAt (w : α) {places : List (Line × Line)} (hp : places.Nodup)
    (t : Tally α) (q : Line × Line) :
    (places.foldl (addAt w) t)[q]? =
      if q ∈ places then some (t[q]?.getD 0 + w) else t[q]? := by
  induction places generalizing t with
  | nil => simp
  | cons p places ih =>
    obtain ⟨hnot, hp⟩ := List.nodup_cons.mp hp
    rw [List.foldl_cons, ih hp, getElem?_addAt]
    by_cases h : p = q
    · subst h
      simp [hnot]
    · have h' : ¬ q = p := fun e => h e.symm
      simp [h, h']

theorem mem_pairs {rows columns : List Line} {row column : Line} :
    (row, column) ∈ (rows.flatMap fun row => columns.map fun column => (row, column)) ↔
      row ∈ rows ∧ column ∈ columns := by
  simp only [List.mem_flatMap, List.mem_map, Prod.mk.injEq]
  constructor
  · rintro ⟨_, hr, _, hc, rfl, rfl⟩
    exact ⟨hr, hc⟩
  · rintro ⟨hr, hc⟩
    exact ⟨row, hr, column, hc, rfl, rfl⟩

theorem nodup_pairs {rows columns : List Line} (hr : rows.Nodup) (hc : columns.Nodup) :
    (rows.flatMap fun row => columns.map fun column => (row, column)).Nodup := by
  rw [List.nodup_iff_pairwise_ne, List.pairwise_flatMap]
  refine ⟨fun row _ => ?_, ?_⟩
  · rw [List.pairwise_map]
    exact hc.imp fun h e => h (Prod.mk.inj e).2
  · refine hr.imp fun {a b} hab x hx y hy hxy => ?_
    rw [List.mem_map] at hx hy
    obtain ⟨_, _, rfl⟩ := hx
    obtain ⟨_, _, rfl⟩ := hy
    exact hab (Prod.mk.inj hxy).1

/-- **A respondent is counted once at every pair of the rows and columns**, and nowhere else. -/
theorem getElem?_count {rows columns : List Line} (hr : rows.Nodup) (hc : columns.Nodup) (w : α)
    (t : Tally α) (row column : Line) : (t.count rows columns w)[(row, column)]? =
      if row ∈ rows ∧ column ∈ columns then some (t[(row, column)]?.getD 0 + w)
      else t[(row, column)]? := by
  rw [count, getElem?_foldl_addAt w (nodup_pairs hr hc)]
  simp only [mem_pairs]

omit [Add α] in
theorem getElem?_start (row column : Line) :
    (start : Tally α)[(row, column)]? = if row = .base ∧ column = .total then some 0 else none := by
  have hp : (Line.base, Line.total) = (row, column) ↔ row = .base ∧ column = .total := by
    rw [Prod.mk.injEq]
    exact ⟨fun h => ⟨h.1.symm, h.2.symm⟩, fun h => ⟨h.1.symm, h.2.symm⟩⟩
  rw [start, Std.HashMap.getElem?_insert]
  simp only [beq_iff_eq, hp, Std.HashMap.getElem?_empty]

end Tally

/-! ## All respondents -/

section Tally

variable {α : Type} (rows columns : Nat → List Line)

/-- The weights of those who take part in the row and the column, in the order of the respondents. -/
def weightsAt (weights : List (Option α)) (row column : Line) : List α :=
  weights.zipIdx.filterMap fun entry =>
    if row ∈ rows entry.2 ∧ column ∈ columns entry.2 then entry.1 else none

variable {rows columns} [Zero α] [Add α]

theorem getElem?_foldl_count (hr : ∀ k, (rows k).Nodup) (hc : ∀ k, (columns k).Nodup)
    (entries : List (Option α × Nat)) (t : Tally α) (row column : Line) :
    (entries.foldl (fun t entry =>
      match entry.1 with
      | some w => t.count (rows entry.2) (columns entry.2) w
      | none => t) t)[(row, column)]? =
      Tally.sumFrom t[(row, column)]? (entries.filterMap fun entry =>
        if row ∈ rows entry.2 ∧ column ∈ columns entry.2 then entry.1 else none) := by
  induction entries generalizing t with
  | nil => rfl
  | cons entry entries ih =>
    obtain ⟨weight, k⟩ := entry
    rw [List.foldl_cons, ih]
    cases weight with
    | none => simp
    | some w =>
      rw [Tally.getElem?_count (hr k) (hc k)]
      by_cases h : row ∈ rows k ∧ column ∈ columns k
      · rw [if_pos h, List.filterMap_cons]
        simp only [if_pos h, Tally.sumFrom_cons]
      · rw [if_neg h, List.filterMap_cons]
        simp only [if_neg h]

/-- **A tally holds at every row and column the sum of the weights of those who take part in both**,
added in the order of the respondents; nobody takes part just if it holds nothing. -/
theorem getElem?_tally (hr : ∀ k, (rows k).Nodup) (hc : ∀ k, (columns k).Nodup)
    (weights : List (Option α)) (row column : Line) :
    (tally rows columns weights)[(row, column)]? =
      Tally.sumFrom (Tally.start : Tally α)[(row, column)]?
        (weightsAt rows columns weights row column) :=
  getElem?_foldl_count hr hc weights.zipIdx Tally.start row column

end Tally

/-! ## The lines of a respondent -/

variable {groups : List GroupKeys} {respondent i a : Nat}

theorem data_mem_dataLines : Line.data i a ∈ dataLines groups respondent ↔
    ∃ k, groups[i]? = some k ∧ k.mark? respondent = some a := by
  simp only [dataLines, List.mem_filterMap, List.mem_zipIdx_iff_getElem?, Option.map_eq_some_iff,
    Line.data.injEq]
  constructor
  · rintro ⟨⟨k, _⟩, hk, _, ha, rfl, rfl⟩
    exact ⟨k, hk, ha⟩
  · rintro ⟨k, hk, ha⟩
    exact ⟨(k, i), hk, a, ha, rfl, rfl⟩

theorem exists_of_mem_dataLines {line : Line} (h : line ∈ dataLines groups respondent) :
    ∃ i a, line = .data i a := by
  simp only [dataLines, List.mem_filterMap, Option.map_eq_some_iff] at h
  obtain ⟨entry, -, a, -, rfl⟩ := h
  exact ⟨entry.2, a, rfl⟩

theorem total_notMem_dataLines : Line.total ∉ dataLines groups respondent := by
  intro h
  obtain ⟨i, a, h⟩ := exists_of_mem_dataLines h
  exact nomatch h

theorem base_notMem_dataLines : Line.base ∉ dataLines groups respondent := by
  intro h
  obtain ⟨i, a, h⟩ := exists_of_mem_dataLines h
  exact nomatch h

theorem nodup_dataLines : (dataLines groups respondent).Nodup := by
  have hsnd : (groups.zipIdx.map Prod.snd).Nodup := by
    rw [List.zipIdx_map_snd]
    exact List.nodup_range'
  rw [List.nodup_iff_pairwise_ne, dataLines, List.pairwise_filterMap]
  refine (List.pairwise_map.mp (List.nodup_iff_pairwise_ne.mp hsnd)).imp ?_
  intro x y hxy l hl m hm hlm
  rw [Option.map_eq_some_iff] at hl hm
  obtain ⟨_, _, rfl⟩ := hl
  obtain ⟨_, _, rfl⟩ := hm
  exact hxy (Line.data.inj hlm).1

theorem nodup_rowLines : (rowLines groups respondent).Nodup :=
  List.nodup_cons.mpr ⟨base_notMem_dataLines, nodup_dataLines⟩

theorem nodup_columnLines {columnTotal : Bool} :
    (columnLines columnTotal groups respondent).Nodup := by
  cases columnTotal with
  | false => exact nodup_dataLines
  | true => exact List.nodup_cons.mpr ⟨total_notMem_dataLines, nodup_dataLines⟩

theorem base_mem_rowLines : Line.base ∈ rowLines groups respondent :=
  List.mem_cons_self

theorem data_mem_rowLines : Line.data i a ∈ rowLines groups respondent ↔
    ∃ k, groups[i]? = some k ∧ k.mark? respondent = some a := by
  rw [rowLines, List.mem_cons, data_mem_dataLines]
  simp

theorem data_mem_columnLines {columnTotal : Bool} :
    Line.data i a ∈ columnLines columnTotal groups respondent ↔
      ∃ k, groups[i]? = some k ∧ k.mark? respondent = some a := by
  rw [columnLines, List.mem_append, data_mem_dataLines]
  cases columnTotal <;> simp

theorem total_mem_columnLines {columnTotal : Bool} :
    Line.total ∈ columnLines columnTotal groups respondent ↔ columnTotal = true := by
  rw [columnLines, List.mem_append]
  cases columnTotal <;> simp [total_notMem_dataLines]

end SurveyTables.Tabulation
