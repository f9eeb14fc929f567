import SurveyTables.Proofs.Tabulation.Respondents
import SurveyTables.Proofs.Tabulation.Tally

/-!
# Who is counted where

* `Responses.counted`, `Responses.total`: the respondents of a cell and their weights added up;
* `weightsAt_weightsOf`: the weights at a row and a column are those of the respondents who take part;
* `data_mem_rows_iff`, `data_mem_columns_iff`: to take part in the line of a class is to show its texts;
* `participants`, **`getElem?_countsOf`**, `getElem?_counts`: the tally of a request has the total of those
  who take part;
* `contains_countsOf`: what they weigh does not tell which pairs of lines have an entry;
* **`participants_data`**: in the lines of two classes these are the respondents who show the texts of
  both;
* `contains_counts_iff`: the pairs of lines that have an entry.
-/

namespace SurveyTables

namespace Responses

/-- The included respondents who show the texts `ts` for the group `g` and `us` for the group `h`. -/
def counted (r : Responses) (d : Design) (o : Options) (g : Group) (ts : List String) (h : Group)
    (us : List String) : List Nat :=
  (List.range r.respondents).filter fun k =>
    r.includes d o k && (r.shows g ts k && r.shows h us k)

/-- The weights of the respondents added up in order from 0; none if there are no respondents. -/
def total (r : Responses) (o : Options) (respondents : List Nat) : Option Float :=
  if respondents.isEmpty then none
  else some ((respondents.map (r.weightIn o)).foldl (· + ·) 0.0)

theorem isSome_total (r : Responses) (o : Options) (respondents : List Nat) :
    (r.total o respondents).isSome = !respondents.isEmpty := by
  unfold total
  cases respondents.isEmpty <;> rfl

theorem isSome_total_counted {r : Responses} {d : Design} {o : Options} {g h : Group}
    {ts us : List String} : (r.total o (r.counted d o g ts h us)).isSome = true ↔
      ∃ k < r.respondents, r.includes d o k = true ∧ r.shows g ts k = true ∧
        r.shows h us k = true := by
  rw [isSome_total, Bool.not_eq_true', List.isEmpty_eq_false_iff_exists_mem]
  simp only [counted, List.mem_filter, List.mem_range, Bool.and_eq_true]

end Responses

namespace Tabulation

open Responses

variable {r : Responses} {d : Design} {o : Options}

theorem weightsAt_weightsOf {α : Type} (rows columns : Nat → List Line) (n : Nat)
    (included : Nat → Bool) (weight : Nat → α) (row column : Line) :
    weightsAt rows columns (weightsOf n included weight) row column =
      ((List.range n).filter fun k =>
        included k && decide (row ∈ rows k ∧ column ∈ columns k)).map weight := by
  have hzip : (weightsOf n included weight).zipIdx =
      (List.range n).map fun k => (if included k then some (weight k) else none, k) := by
    apply List.ext_getElem?
    intro k
    rw [List.getElem?_zipIdx, weightsOf, List.getElem?_map, List.getElem?_map]
    by_cases hk : k < n
    · rw [List.getElem?_range hk]
      simp
    · rw [List.getElem?_eq_none (by simpa using hk)]
      rfl
  rw [weightsAt, hzip, List.filterMap_map, ← List.filterMap_eq_map, List.filterMap_filter]
  congr 1
  funext k
  by_cases hlines : row ∈ rows k ∧ column ∈ columns k
  · simp [hlines]
  · simp [hlines]

/-! ## Taking part -/

section Lines

variable {included : Nat → Bool} {gs : List Group} {g : Group} {i k : Nat}
  {entry : KeyEntry × Nat}

theorem data_mem_lines_iff (hi : gs[i]? = some g)
    (he : entry ∈ (classes r included g).sorted) :
    (∃ keys, (gs.map (classes r included))[i]? = some keys ∧ keys.mark? k = some entry.2) ↔
      k < r.respondents ∧ included k = true ∧
        r.shows g (entry.1.answers.map Answer.display) k = true := by
  rw [List.getElem?_map, hi, Option.map_some, ← mark?_classes he]
  simp

theorem data_mem_rows_iff (hi : gs[i]? = some g) (he : entry ∈ (classes r included g).sorted) :
    Line.data i entry.2 ∈ rowLines (gs.map (classes r included)) k ↔
      k < r.respondents ∧ included k = true ∧
        r.shows g (entry.1.answers.map Answer.display) k = true := by
  rw [data_mem_rowLines, data_mem_lines_iff hi he]

theorem data_mem_columns_iff {columnTotal : Bool} (hi : gs[i]? = some g)
    (he : entry ∈ (classes r included g).sorted) :
    Line.data i entry.2 ∈ columnLines columnTotal (gs.map (classes r included)) k ↔
      k < r.respondents ∧ included k = true ∧
        r.shows g (entry.1.answers.map Answer.display) k = true := by
  rw [data_mem_columnLines, data_mem_lines_iff hi he]

theorem data_mem_rows_of_included (hi : gs[i]? = some g)
    (he : entry ∈ (classes r included g).sorted) (hk : k < r.respondents)
    (hincluded : included k = true) :
    Line.data i entry.2 ∈ rowLines (gs.map (classes r included)) k ↔
      r.shows g (entry.1.answers.map Answer.display) k = true := by
  rw [data_mem_rows_iff hi he]
  simp [hk, hincluded]

theorem data_mem_columns_of_included {columnTotal : Bool} (hi : gs[i]? = some g)
    (he : entry ∈ (classes r included g).sorted) (hk : k < r.respondents)
    (hincluded : included k = true) :
    Line.data i entry.2 ∈ columnLines columnTotal (gs.map (classes r included)) k ↔
      r.shows g (entry.1.answers.map Answer.display) k = true := by
  rw [data_mem_columns_iff hi he]
  simp [hk, hincluded]

end Lines

/-! ## The tally of a request -/

/-- The tally of a request where the included respondents weigh what is told, in numbers of any type. -/
def countsOf {α : Type} [Zero α] [Add α] (r : Responses) (d : Design) (o : Options)
    (weight : Nat → α) : Tally α :=
  tally (rowLines (d.rows.map (classes r (r.includes d o))))
    (columnLines o.columnTotal (d.columns.map (classes r (r.includes d o))))
    (weightsOf r.respondents (r.includes d o) weight)

/-- The tally of a request. -/
def counts (r : Responses) (d : Design) (o : Options) : Tally Float :=
  tally (rowLines (d.rows.map (classes r (r.includes d o))))
    (columnLines o.columnTotal (d.columns.map (classes r (r.includes d o))))
    (weightsOf r.respondents (r.includes d o) (r.weightIn o))

/-- The included respondents who take part in a row and a column. -/
def participants (r : Responses) (d : Design) (o : Options) (row column : Line) : List Nat :=
  (List.range r.respondents).filter fun k => r.includes d o k &&
    decide (row ∈ rowLines (d.rows.map (classes r (r.includes d o))) k ∧
      column ∈ columnLines o.columnTotal (d.columns.map (classes r (r.includes d o))) k)

/-- **The tally of a request adds up the weights of those who take part**, whatever they weigh. -/
theorem getElem?_countsOf {α : Type} [Zero α] [Add α] (weight : Nat → α) (row column : Line) :
    (countsOf r d o weight)[(row, column)]? =
      Tally.sumFrom (if row = .base ∧ column = .total then some 0 else none)
        ((participants r d o row column).map weight) := by
  rw [countsOf, getElem?_tally (fun k => nodup_rowLines) (fun k => nodup_columnLines),
    Tally.getElem?_start, weightsAt_weightsOf]
  rfl

theorem getElem?_counts_eq (row column : Line) :
    (counts r d o)[(row, column)]? =
      Tally.sumFrom (if row = .base ∧ column = .total then some 0 else none)
        ((participants r d o row column).map (r.weightIn o)) :=
  getElem?_countsOf (r.weightIn o) row column

theorem contains_countsOf {α : Type} [Zero α] [Add α] (weight : Nat → α) (row column : Line) :
    (countsOf r d o weight).contains (row, column) = (counts r d o).contains (row, column) := by
  rw [Std.HashMap.contains_eq_isSome_getElem?, Std.HashMap.contains_eq_isSome_getElem?,
    getElem?_countsOf, getElem?_counts_eq, Tally.isSome_sumFrom, Tally.isSome_sumFrom, List.isEmpty_map,
    List.isEmpty_map]
  split <;> rfl

theorem getElem?_counts_of_ne {row column : Line} (h : ¬ (row = .base ∧ column = .total)) :
    (counts r d o)[(row, column)]? = r.total o (participants r d o row column) := by
  rw [getElem?_counts_eq, if_neg h, Tally.sumFrom_none, total]
  simp only [List.isEmpty_iff, List.map_eq_nil_iff]
  rfl

theorem getElem?_counts (i a : Nat) (column : Line) :
    (counts r d o)[(Line.data i a, column)]? =
      r.total o (participants r d o (Line.data i a) column) :=
  getElem?_counts_of_ne (by simp)

theorem participants_eq_filter {row column : Line} {inRow inColumn : Nat → Bool}
    (hrow : ∀ k < r.respondents, r.includes d o k = true →
      (row ∈ rowLines (d.rows.map (classes r (r.includes d o))) k ↔ inRow k = true))
    (hcolumn : ∀ k < r.respondents, r.includes d o k = true →
      (column ∈ columnLines o.columnTotal (d.columns.map (classes r (r.includes d o))) k ↔
        inColumn k = true)) :
    participants r d o row column =
      (List.range r.respondents).filter fun k => r.includes d o k && (inRow k && inColumn k) := by
  unfold participants
  apply List.filter_congr
  intro k hk
  have hk := List.mem_range.mp hk
  rw [Bool.eq_iff_iff]
  simp only [Bool.and_eq_true, decide_eq_true_eq]
  exact and_congr_right fun hincluded =>
    and_congr (hrow k hk hincluded) (hcolumn k hk hincluded)

section Classes

variable {i j : Nat} {g h : Group} {a b : KeyEntry × Nat}
  (hi : d.rows[i]? = some g) (ha : a ∈ (classes r (r.includes d o) g).sorted)
include hi ha

/-- **In the lines of two classes take part those who show the texts of both.** -/
theorem participants_data (hj : d.columns[j]? = some h)
    (hb : b ∈ (classes r (r.includes d o) h).sorted) :
    participants r d o (Line.data i a.2) (Line.data j b.2) =
      r.counted d o g (a.1.answers.map Answer.display) h (b.1.answers.map Answer.display) :=
  participants_eq_filter (fun _ hk hincluded => data_mem_rows_of_included hi ha hk hincluded)
    fun _ hk hincluded => data_mem_columns_of_included hj hb hk hincluded

/-- The line of a class has an entry just if somebody takes part who shows its texts. -/
theorem contains_counts_iff (column : Line) :
    (counts r d o).contains (Line.data i a.2, column) = true ↔
      ∃ k < r.respondents, r.includes d o k = true ∧
        r.shows g (a.1.answers.map Answer.display) k = true ∧
        column ∈ columnLines o.columnTotal (d.columns.map (classes r (r.includes d o))) k := by
  rw [Std.HashMap.contains_eq_isSome_getElem?, getElem?_counts, isSome_total, Bool.not_eq_true',
    List.isEmpty_eq_false_iff_exists_mem]
  simp only [participants, List.mem_filter, List.mem_range, Bool.and_eq_true, decide_eq_true_eq,
    data_mem_rows_iff hi ha]
  constructor
  · rintro ⟨k, hk, hincluded, ⟨-, -, hrow⟩, hcolumn⟩
    exact ⟨k, hk, hincluded, hrow, hcolumn⟩
  · rintro ⟨k, hk, hincluded, hrow, hcolumn⟩
    exact ⟨k, hk, hincluded, ⟨hk, hincluded, hrow⟩, hcolumn⟩

end Classes

end Tabulation

end SurveyTables
