import SurveyTables.Proofs.Catalog.Updates
import SurveyTables.Proofs.Tabulation.ArraySums
import SurveyTables.Proofs.Tabulation.Layout

/-!
# Tables made with checks

The same table made step by step, where each look-up has to find what it looks for: the columns of all
variables, the answer of a respondent in a column, the mark of a respondent, the class with a number, the
sums of a pair of groups, and the path of a key. One look-up that fails leaves no table.

* `Checked.weights`, `Checked.groupKeys`, `Checked.sorted`, `Checked.paths`, `Checked.tabulate`,
  `Checked.build`: the steps;
* `marks_classes`: the marks of the respondents tell classes that there are;
* `Checked.weights_eq`, `Checked.groupKeys_eq`, `Checked.sorted_eq`, `Checked.rowEntries_eq`,
  `Checked.paths_eq`: a step with checks gives what the step without them does;
* **`build_checked`**: with an accepted request no look-up fails.
-/

namespace SurveyTables.Tabulation

open Responses

namespace Checked

/-- The columns of the variables, which all have to be there. -/
def columnsOf (r : Responses) (ids : List String) : Option (List Column) :=
  ids.mapM r.column?

/-- What the respondent said in the columns, each of which has to reach so far. -/
def answers (columns : List Column) (respondent : Nat) : Option (List Answer) :=
  columns.mapM fun c => c.answers[respondent]?

/-- The weight of a respondent, if all look-ups succeed. -/
def weightOf (rows : List Column) (weight : Option Column) (respondent : Nat) :
    Option (Option Float) := do
  let answers ← answers rows respondent
  if answers.any fun a => !a.isMissing then
    match weight with
    | some c => return (← c.answers[respondent]?).weight?
    | none => return some 1.0
  else return none

/-- The weights of all respondents. -/
def weights (r : Responses) (d : Design) (o : Options) : Option (List (Option Float)) := do
  let rows ← columnsOf r d.rowVariableIds
  let weight ← o.weight.mapM r.column?
  (List.range r.respondents).mapM (weightOf rows weight)

/-- What the respondent said in the columns, if there is an answer in each of them. -/
def answersOf (columns : List Column) (respondent : Nat) : Option (Option (List Answer)) := do
  let answers ← answers columns respondent
  return if answers.any Answer.isMissing then none else some answers

section Steps

variable {α : Type}

/-- The classes of a group among the respondents who have a weight. -/
def groupKeys (r : Responses) (weights : List (Option α)) (g : Group) : Option GroupKeys := do
  let columns ← columnsOf r g
  let answers ← weights.zipIdx.mapM fun entry =>
    match entry.1 with
    | some _ => answersOf columns entry.2
    | none => some none
  return GroupKeys.ofAnswers g answers

/-- The classes with their numbers, each looked up by its number, and then in order. -/
def sorted (k : GroupKeys) : Option (List (KeyEntry × Nat)) := do
  let entries ← (List.range k.entries.size).mapM fun a => k.entries.entries[a]?.map fun e => (e, a)
  return entries.mergeSort fun a b => a.1.order b.1 != .gt

/-- The lines of the classes of groups with their keys. -/
def dataEntries (groups : List GroupKeys) : Option (List KeyedLine) := do
  let entries ← groups.zipIdx.mapM fun group => (sorted group.1).map fun entries =>
    entries.map fun entry => { line := .data group.2 entry.2, key := entry.1.key }
  return entries.flatten

/-- The lines of the columns with their keys. -/
def columnEntries (columnTotal : Bool) (groups : List GroupKeys) : Option (List KeyedLine) := do
  return (if columnTotal then [{ line := .total, key := totalColumnKey }] else []) ++
    (← dataEntries groups)

/-- The class of a row stays if somebody has been counted for it. -/
def kept (s : Sums α) (entry : KeyedLine) : Option (Option KeyedLine) :=
  match entry.line with
  | .data i a => (s.isSeen? i a).map fun seen => if seen then some entry else none
  | _ => some (some entry)

/-- The lines of the rows with their keys. -/
def rowEntries (groups : List GroupKeys) (s : Sums α) : Option (List KeyedLine) := do
  let entries ← (← dataEntries groups).mapM (kept s)
  return entries.filterMap id ++ [{ line := .base, key := baseRowKey }]

/-- The entries with their paths. -/
def paths (entries : List KeyedLine) : Option (List (Line × Path)) :=
  entries.mapM fun entry => (Key.decode entry.key).toOption.map fun path => (entry.line, path)

variable [Zero α] [Add α]

/-- The table of a request, from the weights of the respondents. -/
def tabulate (r : Responses) (d : Design) (o : Options) (weights : List (Option α)) :
    Option (Table α) := do
  let rowGroups ← d.rows.mapM (groupKeys r weights)
  let columnGroups ← d.columns.mapM (groupKeys r weights)
  let sums ← sums? o.columnTotal rowGroups columnGroups weights
  let rows ← paths (← rowEntries rowGroups sums)
  let columns ← paths (← columnEntries o.columnTotal columnGroups)
  let cells ← rows.mapM fun row => columns.mapM fun column =>
    sums.cell? columnGroups.length row.1 column.1
  return { rows := labels rows, columns := labels columns, cells, statistic := .count,
           caption := o.caption, warnings := requestWarnings d o }

end Steps

/-- The table of a design. -/
def build (r : Responses) (d : Design) (o : Options) : Option (Table Float) := do
  tabulate r d o (← weights r d o)

end Checked

variable {r : Responses} {d : Design} {o : Options} {t : Table Float}

/-! ## Weights -/

section Columns

variable (hr : r.Valid)
include hr

theorem Checked.columnsOf_eq {ids : List String} (h : ∀ id ∈ ids, r.contains id = true) :
    Checked.columnsOf r ids = some (r.columnsOf ids) := by
  induction ids with
  | nil => rfl
  | cons id ids ih =>
    obtain ⟨c, hc⟩ := hr.exists_column? (h id List.mem_cons_self)
    have ih := ih fun id' hid' => h id' (List.mem_cons_of_mem id hid')
    rw [Checked.columnsOf] at ih ⊢
    rw [List.mapM_cons, hc, ih, Responses.columnsOf, Responses.columnsOf, List.filterMap_cons_some hc]
    rfl

theorem ids_columnsOf {ids : List String} (h : ∀ id ∈ ids, r.contains id = true) :
    (r.columnsOf ids).map Column.id = ids := by
  induction ids with
  | nil => rfl
  | cons id ids ih =>
    obtain ⟨c, hc⟩ := hr.exists_column? (h id List.mem_cons_self)
    have ih := ih fun id' hid' => h id' (List.mem_cons_of_mem id hid')
    rw [Responses.columnsOf] at ih ⊢
    rw [List.filterMap_cons_some hc, List.map_cons, ih, hr.index.key_of_find? hc]

theorem getElem?_answers {id : String} {c : Column} (hc : r.column? id = some c) {k : Nat}
    (hk : k < r.respondents) : c.answers[k]? = some (c.answer k) := by
  rw [hr.column?_eq] at hc
  have hlt : k < c.answers.size := by rwa [hr.size_answers c (List.mem_of_find?_eq_some hc)]
  rw [Column.answer, Array.getElem?_eq_getElem hlt, Option.getD_some]

theorem Checked.answers_eq (ids : List String) {k : Nat} (hk : k < r.respondents) :
    Checked.answers (r.columnsOf ids) k = some ((r.columnsOf ids).map (·.answer k)) := by
  refine mapM_eq_some_map fun c hc => ?_
  obtain ⟨id, -, hid⟩ := List.mem_filterMap.mp hc
  exact getElem?_answers hr hid hk

omit hr in
/-- A column that does not reach to the respondent is found out. -/
example : Checked.answers [{ id := "sex", answers := #[.text "f", .missing] }] 2 = none := rfl

theorem Checked.weightOf_eq (ids : List String) {weight : Option Column}
    (hweight : ∀ c, weight = some c → ∃ id, r.column? id = some c) {k : Nat} (hk : k < r.respondents) :
    Checked.weightOf (r.columnsOf ids) weight k =
      some (Tabulation.weightOf? (r.columnsOf ids) weight k) := by
  have hany : ((r.columnsOf ids).map (·.answer k)).any (fun a => !a.isMissing) =
      hasAnswered (r.columnsOf ids) k := List.any_map
  simp only [Checked.weightOf, Checked.answers_eq hr ids hk, bind, Option.bind_some, hany, weightOf?]
  cases hasAnswered (r.columnsOf ids) k with
  | false => rfl
  | true =>
    cases weight with
    | none => rfl
    | some c =>
      obtain ⟨id, hid⟩ := hweight c rfl
      simp only [getElem?_answers hr hid hk]
      rfl

/-- **The weights with checks**: every column reaches to the last respondent. -/
theorem Checked.weights_eq (h : Accepted r d o) :
    Checked.weights r d o = some (Tabulation.weights r d o) := by
  have hrows : ∀ id ∈ d.rowVariableIds, r.contains id = true := by
    intro id hid
    rw [Design.rowVariableIds, List.mem_eraseDups, List.mem_flatten] at hid
    obtain ⟨g, hg, hid⟩ := hid
    exact (h.group .rows g hg).2 id hid
  have hweight : o.weight.mapM r.column? = some (o.weight.bind r.column?) := by
    cases ho : o.weight with
    | none => rfl
    | some id =>
      obtain ⟨c, hc⟩ := hr.exists_column? (h.weight id ho)
      rw [Option.bind_some, hc]
      exact congrArg (Option.map some) hc
  simp only [Checked.weights, Checked.columnsOf_eq hr hrows, hweight, bind, Option.bind_some]
  refine mapM_eq_some_map fun k hk => Checked.weightOf_eq hr _ (fun c hc => ?_) (List.mem_range.mp hk)
  obtain ⟨id, -, hid⟩ := Option.bind_eq_some_iff.mp hc
  exact ⟨id, hid⟩

end Columns

/-! ## Classes -/

theorem Checked.groupKeys_eq {α : Type} (hr : r.Valid) {weights : List (Option α)}
    (hweights : weights.length = r.respondents) {g : Group} (hg : ∀ id ∈ g, r.contains id = true) :
    Checked.groupKeys r weights g = some (GroupKeys.build r weights g) := by
  have hanswers : ∀ entry ∈ weights.zipIdx, (match entry.1 with
      | some _ => Checked.answersOf (r.columnsOf g) entry.2
      | none => some none) =
      some (entry.1.bind fun _ => answersOf? (r.columnsOf g) entry.2) := by
    rintro ⟨weight, k⟩ hentry
    have hk : k < r.respondents :=
      hweights ▸ lt_length_of_getElem? (List.mem_zipIdx_iff_getElem?.mp hentry)
    cases weight with
    | none => rfl
    | some w =>
      simp only [Checked.answersOf, Checked.answers_eq hr g hk]
      rfl
  simp only [Checked.groupKeys, Checked.columnsOf_eq hr hg, bind, Option.bind_some,
    mapM_eq_some_map hanswers]
  rw [GroupKeys.build, List.mapIdx_eq_zipIdx_map]
  rfl

/-- **The marks of the respondents tell classes that there are**, whoever is included. -/
theorem marks_classes (r : Responses) (included : Nat → Bool) (g : Group) :
    (classes r included g).Marks r.respondents where
  size_marks := by
    rw [← Array.length_toList, (numbers_classes r included g).marks_eq, List.length_map, classAnswers,
      List.length_map, List.length_range]
  lt_size k a h := by
    obtain ⟨as, -, hkey⟩ := (numbers_classes r included g).mark?_eq_some_iff.mp h
    rw [← Catalog.length_keys]
    exact lt_length_of_getElem? hkey

theorem mapM_range_getElem? {β : Type} [Inhabited β] (xs : Array β) :
    (List.range xs.size).mapM (fun a => xs[a]?.map fun x => (x, a)) = some xs.toList.zipIdx := by
  have hread : ∀ a ∈ List.range xs.size,
      (xs[a]?.map fun x => (x, a)) = some (xs[a]?.getD default, a) := by
    intro a ha
    rw [Array.getElem?_eq_getElem (List.mem_range.mp ha)]
    rfl
  rw [mapM_eq_some_map hread, Option.some_inj]
  apply List.ext_getElem?
  intro a
  have hentry : xs.toList[a]? = xs[a]? := Array.getElem?_toList
  rw [List.getElem?_map, List.getElem?_zipIdx, hentry]
  by_cases ha : a < xs.size
  · rw [List.getElem?_range ha]
    simp [Array.getElem?_eq_getElem ha]
  · rw [List.getElem?_eq_none (by simpa using ha), Array.getElem?_eq_none (by omega)]
    rfl

theorem Checked.sorted_eq (k : GroupKeys) : Checked.sorted k = some k.sorted := by
  have hentries : (List.range k.entries.size).mapM (fun a =>
      k.entries.entries[a]?.map fun e => (e, a)) = some k.entries.toList.zipIdx :=
    mapM_range_getElem? k.entries.entries
  simp only [Checked.sorted, hentries, bind, Option.bind_some]
  rfl

theorem Checked.dataEntries_eq (groups : List GroupKeys) :
    Checked.dataEntries groups = some (Tabulation.dataEntries groups) := by
  have hgroup : ∀ group ∈ groups.zipIdx, ((Checked.sorted group.1).map fun entries =>
      entries.map fun entry => ({ line := .data group.2 entry.2, key := entry.1.key } : KeyedLine)) =
      some (group.1.sorted.map fun entry => { line := .data group.2 entry.2, key := entry.1.key }) := by
    intro group _
    rw [Checked.sorted_eq, Option.map_some]
  simp only [Checked.dataEntries, mapM_eq_some_map hgroup, bind, Option.bind_some]
  rfl

theorem Checked.columnEntries_eq (columnTotal : Bool) (groups : List GroupKeys) :
    Checked.columnEntries columnTotal groups =
      some (Tabulation.columnEntries columnTotal groups) := by
  simp only [Checked.columnEntries, Checked.dataEntries_eq, bind, Option.bind_some]
  rfl

/-! ## Rows and columns -/

theorem lt_size_of_mem_sorted {k : GroupKeys} {c : KeyEntry × Nat} (hc : c ∈ k.sorted) :
    c.2 < k.entries.size := by
  rw [← Catalog.length_keys, Catalog.keys, List.length_map]
  exact lt_length_of_getElem? (GroupKeys.mem_sorted.mp hc)

theorem isLine_of_mem_classLines {included : Nat → Bool} {gs : List Group} {entry : Line × Path}
    (h : entry ∈ classLines r included gs) :
    IsRow (gs.map (classes r included)) entry.1 ∧ IsColumn (gs.map (classes r included)) entry.1 := by
  obtain ⟨⟨g, i⟩, hg, hentry⟩ := List.mem_flatMap.mp h
  obtain ⟨c, hc, rfl⟩ := List.mem_map.mp hentry
  have hkeys : (gs.map (classes r included))[i]? = some (classes r included g) := by
    rw [List.getElem?_map, List.mem_zipIdx_iff_getElem?.mp hg]
    rfl
  exact ⟨.data hkeys (lt_size_of_mem_sorted hc), .data hkeys (lt_size_of_mem_sorted hc)⟩

theorem isRow_of_mem_tableRows {entry : Line × Path} (h : entry ∈ tableRows r d o) :
    IsRow (d.rows.map (classes r (r.includes d o))) entry.1 := by
  rw [tableRows, List.mem_append, List.mem_singleton] at h
  rcases h with h | rfl
  · exact (isLine_of_mem_classLines (List.mem_filter.mp h).1).1
  · exact .base

theorem isColumn_of_mem_tableColumns {entry : Line × Path} (h : entry ∈ tableColumns r d o) :
    IsColumn (d.columns.map (classes r (r.includes d o))) entry.1 := by
  rw [tableColumns, List.mem_append] at h
  rcases h with h | h
  · split at h
    · rw [List.mem_singleton.mp h]
      exact .total
    · exact absurd h List.not_mem_nil
  · exact (isLine_of_mem_classLines h).2

/-- A class of the rows stays just if it has an entry in any column at all. -/
theorem isKept_iff_exists {i : Nat} {g : Group} {a : KeyEntry × Nat} (hi : d.rows[i]? = some g)
    (ha : a ∈ (classes r (r.includes d o) g).sorted) :
    isKept r d o (.data i a.2) = true ↔
      ∃ column, (counts r d o).contains (.data i a.2, column) = true := by
  constructor
  · intro h
    obtain ⟨column, -, hcolumn⟩ := List.any_eq_true.mp h
    exact ⟨column.line, hcolumn⟩
  · rintro ⟨column, h⟩
    obtain ⟨k, hk, hincluded, hshows, hmem⟩ := (contains_counts_iff hi ha column).mp h
    exact (isKept_iff hi ha).mpr ⟨k, hk, hincluded, inColumns_of_mem hmem, hshows⟩

section Sums

variable {s : Sums Float} (h : Holds (d.rows.map (classes r (r.includes d o)))
  (d.columns.map (classes r (r.includes d o))) s (counts r d o))
include h

theorem Checked.kept_eq {entry : KeyedLine}
    (he : entry ∈ Tabulation.dataEntries (d.rows.map (classes r (r.includes d o)))) :
    Checked.kept s entry = some (if isKept r d o entry.line then some entry else none) := by
  rw [Tabulation.dataEntries, List.zipIdx_map, List.flatMap_map, List.mem_flatMap] at he
  obtain ⟨⟨g, i⟩, hg, he⟩ := he
  obtain ⟨c, hc, rfl⟩ := List.mem_map.mp he
  have hi := List.mem_zipIdx_iff_getElem?.mp hg
  obtain ⟨b, hb, hiff⟩ := h.isSeen?_eq i c.2
    (.data (by rw [List.getElem?_map, hi]; rfl) (lt_size_of_mem_sorted hc))
  have hkept : isKept r d o (.data i c.2) = b := by
    rw [Bool.eq_iff_iff, isKept_iff_exists hi hc, hiff]
  exact (congrArg (Option.map _) hb).trans (by rw [Option.map_some, ← hkept]; rfl)

/-- **The rows with checks** are those that stay without them. -/
theorem Checked.rowEntries_eq :
    Checked.rowEntries (d.rows.map (classes r (r.includes d o))) s =
      some (Tabulation.rowEntries (d.rows.map (classes r (r.includes d o))) (keyedColumns r d o)
        (counts r d o)) := by
  have hkept := mapM_eq_some_map fun _ he => Checked.kept_eq h he
  simp only [Checked.rowEntries, Checked.dataEntries_eq, bind, Option.bind_some, hkept]
  have hguard : id ∘ (fun entry : KeyedLine => if isKept r d o entry.line then some entry else none) =
      Option.guard fun entry => isKept r d o entry.line := rfl
  rw [Tabulation.rowEntries, List.filterMap_map, hguard, List.filterMap_eq_filter]
  rfl

end Sums

theorem Checked.paths_eq {entries : List KeyedLine}
    (h : ∀ entry ∈ entries, ∃ path, Key.decode entry.key = .ok path) :
    Checked.paths entries = some (decodeEntries entries) := by
  induction entries with
  | nil => rfl
  | cons entry entries ih =>
    obtain ⟨path, hpath⟩ := h entry List.mem_cons_self
    have ih := ih fun entry' he => h entry' (List.mem_cons_of_mem _ he)
    have hcons : decodeEntries (entry :: entries) = (entry.line, path) :: decodeEntries entries := by
      simp only [decodeEntries, List.filterMap_cons, hpath]
    rw [Checked.paths] at ih ⊢
    rw [List.mapM_cons, ih, hpath, hcons]
    rfl

/-! ## Tables -/

theorem counts_eq (hr : r.Valid) (h : Accepted r d o) : counts r d o =
    tally (rowLines (d.rows.map (classes r (r.includes d o))))
      (columnLines o.columnTotal (d.columns.map (classes r (r.includes d o))))
      (Tabulation.weights r d o) := by
  rw [counts, Tabulation.weights_eq hr h]

/-- **A table made with checks** is the one made without them. -/
theorem Checked.tabulate_eq (hr : r.Valid) (h : Accepted r d o) :
    Checked.tabulate r d o (Tabulation.weights r d o) =
      some (Tabulation.tabulate r d o (Tabulation.weights r d o)) := by
  have hlength : (Tabulation.weights r d o).length = r.respondents := by
    rw [Tabulation.weights, List.length_map, List.length_range]
  have hgroups : ∀ axis, (d.groups axis).mapM (Checked.groupKeys r (Tabulation.weights r d o)) =
      some ((d.groups axis).map (classes r (r.includes d o))) := by
    intro axis
    rw [← map_build hr h]
    exact mapM_eq_some_map fun g hg => Checked.groupKeys_eq hr hlength (h.group axis g hg).2
  have hmarks : ∀ gs : List Group, ∀ k ∈ gs.map (classes r (r.includes d o)),
      k.Marks r.respondents := by
    intro gs k hk
    obtain ⟨g, -, rfl⟩ := List.mem_map.mp hk
    exact marks_classes r _ g
  obtain ⟨s, hs, hholds⟩ :=
    exists_sums? o.columnTotal (hmarks d.rows) (hmarks d.columns) hlength
  rw [← counts_eq hr h] at hholds
  have hcells : (tableRows r d o).mapM (fun row => (tableColumns r d o).mapM fun column =>
      s.cell? (d.columns.map (classes r (r.includes d o))).length row.1 column.1) =
      some ((tableRows r d o).map fun row => (tableColumns r d o).map fun column =>
        (counts r d o)[(row.1, column.1)]?) :=
    mapM_eq_some_map fun row hrow => mapM_eq_some_map fun column hcolumn =>
      hholds.cell?_eq _ _ (isRow_of_mem_tableRows hrow) (isColumn_of_mem_tableColumns hcolumn)
  obtain ⟨hrows, hcolumns, hcellsEq⟩ := Tabulation.tabulate_eq hr h rfl
  have hrowGroups : d.rows.mapM _ = some (d.rows.map _) := hgroups .rows
  have hcolumnGroups : d.columns.mapM _ = some (d.columns.map _) := hgroups .columns
  have hrowPaths := Checked.paths_eq fun _ he => exists_decode_of_mem_keyedRows h he
  have hcolumnPaths :=
    Checked.paths_eq fun _ he => exists_decode_of_mem_keyedColumns h he
  rw [decodeEntries_keyedRows h] at hrowPaths
  rw [decodeEntries_keyedColumns h] at hcolumnPaths
  have hkeyed : Checked.columnEntries o.columnTotal (d.columns.map (classes r (r.includes d o))) =
      some (keyedColumns r d o) := Checked.columnEntries_eq _ _
  simp only [Checked.tabulate, hrowGroups, hcolumnGroups, hs, Checked.rowEntries_eq hholds, hkeyed,
    hrowPaths, hcolumnPaths, hcells, bind, Option.bind_some]
  rw [← hrows, ← hcolumns, ← hcellsEq, ← warnings_tabulate hr h]
  rfl

/-- **No look-up fails and nothing is dropped.** The table comes out just the same if every look-up is
checked, and every key is read back. -/
theorem build_checked (hr : r.Reachable) (hb : build r d o = .ok t) :
    Checked.build r d o = some t ∧
    (∀ axis, ∀ g ∈ d.groups axis, (r.columnsOf g).map Column.id = g) ∧
    ∀ key reason, .undecodableKey key reason ∉ t.warnings := by
  obtain ⟨ha, rfl⟩ := build_eq_ok_iff.mp hb
  refine ⟨?_, fun axis g hg => ids_columnsOf hr.valid (ha.group axis g hg).2, fun key reason hmem => ?_⟩
  · simp only [Checked.build, Checked.weights_eq hr.valid ha, bind, Option.bind_some]
    exact Checked.tabulate_eq hr.valid ha
  · rw [warnings_tabulate hr.valid ha, requestWarnings, List.mem_append] at hmem
    rcases hmem with hmem | hmem
    · split at hmem <;> simp at hmem
    · simp at hmem

/-- The table of the sample is made with checks as well. -/
theorem build_checked_sample : sample.Reachable ∧
    build sample sampleDesign sampleOptions = .ok sampleTable ∧
    Checked.build sample sampleDesign sampleOptions = some sampleTable :=
  ⟨reachable_sample, build_sample, (build_checked reachable_sample build_sample).1⟩

end SurveyTables.Tabulation
