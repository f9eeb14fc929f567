import Mathlib.Data.List.Basic
import SurveyTables.Proofs.Tabulation.Counts

/-!
# The lines of a table

* `classLines`, **`decodeEntries_dataEntries`**: the lines of the classes with their paths, which the
  keys give back without loss;
* `tableRows`, `tableColumns`: the lines of a table with their paths;
* **`tabulate_weightsOf`**, `tabulate_eq`: a table has the labels of these, and the tally at all pairs of
  them;
* **`warnings_tabulate`**: the warnings of a table are those of its request;
* `Responses.inColumns`, **`isKept_iff`**: a class of the rows stays just if somebody shows its texts
  who is counted in a column.
-/

namespace SurveyTables

/-- The respondent is counted in a column: the total column or one of a group. -/
def Responses.inColumns (r : Responses) (d : Design) (o : Options) (respondent : Nat) : Bool :=
  o.columnTotal || d.columns.any fun h => r.answersAll h respondent

namespace Tabulation

open Responses

variable {r : Responses} {d : Design} {o : Options}

/-! ## Lines and their paths -/

/-- The lines of the classes of the groups, with their paths. -/
def classLines (r : Responses) (included : Nat → Bool) (gs : List Group) : List (Line × Path) :=
  gs.zipIdx.flatMap fun entry =>
    (classes r included entry.1).sorted.map fun c =>
      (.data entry.2 c.2, groupPath entry.1 c.1.answers)

theorem decode_key {included : Nat → Bool} {g : Group} (hg : g ≠ []) {c : KeyEntry × Nat}
    (hc : c ∈ (classes r included g).sorted) :
    Key.decode c.1.key = .ok (groupPath g c.1.answers) := by
  have hlength := length_answers_of_mem_sorted hc
  have hpath : groupPath g c.1.answers ≠ [] := by
    intro h
    have := congrArg List.length h
    rw [groupPath, List.length_zip, List.length_map, hlength, Nat.min_self] at this
    exact hg (List.eq_nil_of_length_eq_zero this)
  rw [(numbers_classes r included g).key_eq
    (List.mem_of_getElem? (GroupKeys.mem_sorted.mp hc)), groupKey]
  exact Key.decode_encode hpath

/-- **No class is lost**: all their keys read back. -/
theorem decodeEntries_dataEntries {included : Nat → Bool} {gs : List Group}
    (hgs : ∀ g ∈ gs, g ≠ []) :
    decodeEntries (dataEntries (gs.map (classes r included))) = classLines r included gs := by
  unfold decodeEntries dataEntries classLines
  rw [List.filterMap_flatMap, List.zipIdx_map, List.flatMap_map]
  apply List.flatMap_congr
  intro entry hentry
  have hg := hgs entry.1 (List.mem_of_getElem? (List.mem_zipIdx_iff_getElem?.mp hentry))
  rw [List.filterMap_map]
  apply List.filterMap_eq_map_iff_forall_eq_some.mpr
  intro c hc
  simp only [Function.comp_apply, decode_key hg hc]
  rfl

theorem decodeEntries_filter (kept : Line → Bool) (entries : List KeyedLine) :
    decodeEntries (entries.filter fun entry => kept entry.line) =
      (decodeEntries entries).filter fun entry => kept entry.1 := by
  unfold decodeEntries
  rw [List.filterMap_filter, List.filter_filterMap]
  congr 1
  funext entry
  cases Key.decode entry.key with
  | ok path => cases h : kept entry.line <;> simp [Option.filter, h]
  | error e => cases kept entry.line <;> rfl

theorem decodeEntries_append (entries more : List KeyedLine) :
    decodeEntries (entries ++ more) = decodeEntries entries ++ decodeEntries more :=
  List.filterMap_append

theorem decodeEntries_encode (line : Line) {p : Path} (hp : p ≠ []) :
    decodeEntries [{ line, key := Key.encode p }] = [(line, p)] := by
  have h := Key.decode_encode hp
  simp only [decodeEntries, List.filterMap_cons, h, List.filterMap_nil]

/-! ## The lines of a table -/

/-- The columns of a table with their keys. -/
def keyedColumns (r : Responses) (d : Design) (o : Options) : List KeyedLine :=
  columnEntries o.columnTotal (d.columns.map (classes r (r.includes d o)))

/-- A line has an entry in some column. -/
def isKept (r : Responses) (d : Design) (o : Options) (row : Line) : Bool :=
  (keyedColumns r d o).any fun column => (counts r d o).contains (row, column.line)

/-- The columns of a table with their paths. -/
def tableColumns (r : Responses) (d : Design) (o : Options) : List (Line × Path) :=
  (if o.columnTotal then [(.total, [(totalId, "")])] else []) ++
    classLines r (r.includes d o) d.columns

/-- The rows of a table with their paths. -/
def tableRows (r : Responses) (d : Design) (o : Options) : List (Line × Path) :=
  ((classLines r (r.includes d o) d.rows).filter fun row => isKept r d o row.1) ++
    [(.base, [(baseId, Statistic.count.marker)])]

theorem decodeEntries_keyedColumns (h : Accepted r d o) :
    decodeEntries (keyedColumns r d o) = tableColumns r d o := by
  have hgs : ∀ g ∈ d.columns, g ≠ [] := fun g hg => (h.group .columns g hg).1
  rw [keyedColumns, columnEntries, decodeEntries_append, decodeEntries_dataEntries hgs, tableColumns]
  cases o.columnTotal with
  | false => rfl
  | true => exact congrArg (· ++ _) (decodeEntries_encode .total (by simp))

theorem decodeEntries_keyedRows (h : Accepted r d o) :
    decodeEntries (rowEntries (d.rows.map (classes r (r.includes d o))) (keyedColumns r d o)
      (counts r d o)) = tableRows r d o := by
  have hgs : ∀ g ∈ d.rows, g ≠ [] := fun g hg => (h.group .rows g hg).1
  have hbase : decodeEntries [{ line := .base, key := baseRowKey }] =
      [(.base, [(baseId, Statistic.count.marker)])] := decodeEntries_encode .base (by simp)
  rw [rowEntries, decodeEntries_append, hbase, tableRows, ← decodeEntries_dataEntries hgs]
  exact congrArg (· ++ _) (decodeEntries_filter (isKept r d o) _)

section Tabulate

variable (hr : r.Valid) (h : Accepted r d o)
include hr h

theorem map_buildOf {α : Type} (weight : Nat → α) (axis : Axis) :
    (d.groups axis).map (GroupKeys.build r (weightsOf r.respondents (r.includes d o) weight)) =
      (d.groups axis).map (classes r (r.includes d o)) := by
  apply List.map_congr_left
  intro g hg
  exact build_eq_classes _ _ hr (h.group axis g hg).2

theorem map_build (axis : Axis) :
    (d.groups axis).map (GroupKeys.build r (weights r d o)) =
      (d.groups axis).map (classes r (r.includes d o)) := by
  rw [weights_eq hr h]
  exact map_buildOf hr h (r.weightIn o) axis

/-- **What a table is made of, whatever its respondents weigh**: the same labels, and the tally of the
weights at all pairs of lines. -/
theorem tabulate_weightsOf {α : Type} [Zero α] [Add α] (weight : Nat → α) {t : Table α}
    (ht : t = tabulate r d o (weightsOf r.respondents (r.includes d o) weight)) :
    t.rows = labels (tableRows r d o) ∧ t.columns = labels (tableColumns r d o) ∧
      t.cells = (tableRows r d o).map fun row => (tableColumns r d o).map fun column =>
        (countsOf r d o weight)[(row.1, column.1)]? := by
  have hrows : d.rows.map _ = d.rows.map _ := map_buildOf hr h weight .rows
  have hcolumns : d.columns.map _ = d.columns.map _ := map_buildOf hr h weight .columns
  have hkeyed : rowEntries (d.rows.map (classes r (r.includes d o))) (keyedColumns r d o)
      (countsOf r d o weight) = rowEntries (d.rows.map (classes r (r.includes d o)))
        (keyedColumns r d o) (counts r d o) := by
    simp only [rowEntries, contains_countsOf]
  rw [← decodeEntries_keyedRows h, ← decodeEntries_keyedColumns h, ← hkeyed, ht]
  unfold tabulate
  rw [hrows, hcolumns]
  exact ⟨rfl, rfl, rfl⟩

/-- **What a table is made of**: the labels of its lines, and the tally at all pairs of them. -/
theorem tabulate_eq {t : Table Float} (ht : t = tabulate r d o (weights r d o)) :
    t.rows = labels (tableRows r d o) ∧ t.columns = labels (tableColumns r d o) ∧
      t.cells = (tableRows r d o).map fun row => (tableColumns r d o).map fun column =>
        (counts r d o)[(row.1, column.1)]? := by
  rw [weights_eq hr h] at ht
  exact tabulate_weightsOf hr h (r.weightIn o) ht

end Tabulate

/-! ## No warnings of keys -/

theorem decodeWarnings_eq_nil {entries : List KeyedLine}
    (h : ∀ entry ∈ entries, ∃ path, Key.decode entry.key = .ok path) :
    decodeWarnings entries = [] := by
  unfold decodeWarnings
  rw [List.filterMap_eq_nil_iff]
  intro entry hentry
  obtain ⟨path, hpath⟩ := h entry hentry
  rw [hpath]

theorem exists_decode_of_mem_dataEntries {included : Nat → Bool} {gs : List Group}
    (hgs : ∀ g ∈ gs, g ≠ []) {entry : KeyedLine}
    (he : entry ∈ dataEntries (gs.map (classes r included))) :
    ∃ path, Key.decode entry.key = .ok path := by
  rw [dataEntries, List.zipIdx_map, List.flatMap_map, List.mem_flatMap] at he
  obtain ⟨g, hg, he⟩ := he
  obtain ⟨c, hc, rfl⟩ := List.mem_map.mp he
  have hg := hgs g.1 (List.mem_of_getElem? (List.mem_zipIdx_iff_getElem?.mp hg))
  exact ⟨_, decode_key hg hc⟩

theorem exists_decode_of_mem_keyedColumns (h : Accepted r d o) {entry : KeyedLine}
    (he : entry ∈ keyedColumns r d o) : ∃ path, Key.decode entry.key = .ok path := by
  rw [keyedColumns, columnEntries, List.mem_append] at he
  rcases he with he | he
  · split at he
    · rw [List.mem_singleton.mp he]
      exact ⟨_, Key.decode_encode (by simp)⟩
    · simp at he
  · exact exists_decode_of_mem_dataEntries (fun g hg => (h.group .columns g hg).1) he

theorem exists_decode_of_mem_keyedRows (h : Accepted r d o) {entry : KeyedLine}
    (he : entry ∈ rowEntries (d.rows.map (classes r (r.includes d o))) (keyedColumns r d o)
      (counts r d o)) : ∃ path, Key.decode entry.key = .ok path := by
  rw [rowEntries, List.mem_append, List.mem_filter, List.mem_singleton] at he
  rcases he with ⟨he, -⟩ | rfl
  · exact exists_decode_of_mem_dataEntries (fun g hg => (h.group .rows g hg).1) he
  · exact ⟨_, Key.decode_encode (by simp)⟩

/-- **A table has only the warnings of its request**: no key is ever unreadable. -/
theorem warnings_tabulate (hr : r.Valid) (h : Accepted r d o) :
    (tabulate r d o (weights r d o)).warnings = requestWarnings d o := by
  have hrows : d.rows.map _ = d.rows.map _ := map_build hr h .rows
  have hcolumns : d.columns.map _ = d.columns.map _ := map_build hr h .columns
  unfold tabulate
  simp only [hrows, hcolumns]
  rw [weights_eq hr h, decodeWarnings_eq_nil, decodeWarnings_eq_nil, List.append_nil,
    List.append_nil]
  · exact fun entry he => exists_decode_of_mem_keyedColumns h he
  · exact fun entry he => exists_decode_of_mem_keyedRows h he

/-! ## The rows that stay -/

theorem mem_dataEntries {groups : List GroupKeys} {keys : GroupKeys} {j : Nat}
    {c : KeyEntry × Nat} (hj : groups[j]? = some keys) (hc : c ∈ keys.sorted) :
    { line := .data j c.2, key := c.1.key } ∈ dataEntries groups := by
  unfold dataEntries
  rw [List.mem_flatMap]
  exact ⟨(keys, j), List.mem_zipIdx_iff_getElem?.mpr hj, List.mem_map_of_mem hc⟩

theorem inColumns_of_mem {line : Line} {k : Nat}
    (h : line ∈ columnLines o.columnTotal (d.columns.map (classes r (r.includes d o))) k) :
    r.inColumns d o k = true := by
  rw [inColumns, Bool.or_eq_true]
  rw [columnLines, List.mem_append] at h
  rcases h with h | h
  · left
    cases hc : o.columnTotal with
    | true => rfl
    | false => simp [hc] at h
  · right
    obtain ⟨j, b, rfl⟩ := exists_of_mem_dataLines h
    obtain ⟨keys, hj, hmark⟩ := data_mem_dataLines.mp h
    rw [List.getElem?_map, Option.map_eq_some_iff] at hj
    obtain ⟨g, hg, rfl⟩ := hj
    rw [List.any_eq_true]
    exact ⟨g, List.mem_of_getElem? hg, answersAll_of_mark? hmark⟩

/-- **A class of the rows stays just if somebody shows its texts who is counted in a column.** -/
theorem isKept_iff {i : Nat} {g : Group} {a : KeyEntry × Nat} (hi : d.rows[i]? = some g)
    (ha : a ∈ (classes r (r.includes d o) g).sorted) :
    isKept r d o (.data i a.2) = true ↔ ∃ k < r.respondents, r.includes d o k = true ∧
      r.inColumns d o k = true ∧ r.shows g (a.1.answers.map Answer.display) k = true := by
  rw [isKept, List.any_eq_true]
  constructor
  · rintro ⟨column, -, hcolumn⟩
    obtain ⟨k, hk, hincluded, hshows, hmem⟩ := (contains_counts_iff hi ha _).mp hcolumn
    exact ⟨k, hk, hincluded, inColumns_of_mem hmem, hshows⟩
  · rintro ⟨k, hk, hincluded, hin, hshows⟩
    have hcontains : ∀ line,
        line ∈ columnLines o.columnTotal (d.columns.map (classes r (r.includes d o))) k →
        (counts r d o).contains (.data i a.2, line) = true :=
      fun line h => (contains_counts_iff hi ha line).mpr ⟨k, hk, hincluded, hshows, h⟩
    unfold keyedColumns columnEntries
    by_cases htotal : o.columnTotal = true
    · refine ⟨{ line := .total, key := totalColumnKey }, ?_, hcontains _ ?_⟩
      · rw [if_pos htotal]
        exact List.mem_append_left _ (List.mem_singleton_self _)
      · exact total_mem_columnLines.mpr htotal
    · -- without a total column the respondent is in the class of some column group
      rw [inColumns, Bool.or_eq_true] at hin
      obtain ⟨h, hh, hall⟩ := List.any_eq_true.mp (hin.resolve_left htotal)
      obtain ⟨j, hj⟩ := List.mem_iff_getElem?.mp hh
      obtain ⟨b, hb, htexts⟩ :=
        exists_class_iff.mpr ⟨k, hk, hincluded, shows_iff.mpr ⟨hall, rfl⟩⟩
      refine ⟨{ line := .data j b.2, key := b.1.key }, ?_, hcontains _ ?_⟩
      · refine List.mem_append_right _ (mem_dataEntries ?_ hb)
        rw [List.getElem?_map, hj, Option.map_some]
      · rw [data_mem_columns_iff hj hb, htexts]
        exact ⟨hk, hincluded, shows_iff.mpr ⟨hall, rfl⟩⟩

end Tabulation

end SurveyTables
