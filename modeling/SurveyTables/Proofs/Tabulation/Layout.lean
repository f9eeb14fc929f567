import Mathlib
import SurveyTables.Proofs.Table.Padding
import SurveyTables.Proofs.Tabulation.Lines

/-!
# The layout of a table

* `label`, `labels_eq`, `length_path_of_mem_labels`: a label has the path of its line, filled up to the
  length that all paths of the axis have;
* `Lists`, **`lists_classTexts`**: the classes of a group list the texts that respondents show, each
  once and in the order of the answers behind them;
* `dataLabels`, `mem_dataLabels`, `map_label_classLines`: the labels of the classes, group by group;
* `HasLayout`, **`build_layout`**: the rows and columns of a table, with nothing lost, doubled or out of
  order.
-/

namespace SurveyTables.Tabulation

open Responses

variable {r : Responses} {d : Design} {o : Options} {t : Table Float}

/-! ## Labels -/

/-- The label of a line, with the path filled up. -/
def label (depth : Nat) (entry : Line × Path) : Label :=
  { path := entry.2.pad depth, kind := entry.1.kind, statistic := .count }

/-- The length of the paths of an axis. -/
def depth (entries : List (Line × Path)) : Nat :=
  longest (entries.map Prod.snd)

theorem labels_eq (entries : List (Line × Path)) :
    labels entries = entries.map (label (depth entries)) := by
  rw [labels, padded, List.map_map, List.zipWith_map_right, List.zipWith_self]
  rfl

/-- **All labels of an axis have the same length.** -/
theorem length_path_of_mem_labels {entries : List (Line × Path)} {l : Label}
    (h : l ∈ labels entries) : l.path.length = depth entries := by
  rw [labels_eq, List.mem_map] at h
  obtain ⟨entry, hentry, rfl⟩ := h
  exact Path.length_pad (length_le_longest (List.mem_map_of_mem hentry))

/-! ## The texts of the classes -/

/-- The texts that included respondents show for the group, as far as these count: each once, in the
strict order of the answers that the first included respondent gave who shows them. -/
structure Lists (r : Responses) (included counting : Nat → Bool) (g : Group)
    (texts : List (List String)) : Prop where
  mem_iff : ∀ ts, ts ∈ texts ↔ ∃ k < r.respondents, included k = true ∧ counting k = true ∧
    r.shows g ts k = true
  nodup : texts.Nodup
  ascending : texts.Pairwise fun ts us =>
    Answer.orderAll (r.firstAnswers included g ts) (r.firstAnswers included g us) = .lt

/-- The texts of the classes that some respondent belongs to who counts. -/
def classTexts (r : Responses) (included counting : Nat → Bool) (g : Group) : List (List String) :=
  ((classes r included g).sorted.map fun c => c.1.answers.map Answer.display).filter fun ts =>
    (List.range r.respondents).any fun k => included k && (counting k && r.shows g ts k)

variable {included counting : Nat → Bool}

theorem any_range_iff {g : Group} {ts : List String} :
    ((List.range r.respondents).any fun k => included k && (counting k && r.shows g ts k)) = true ↔
      ∃ k < r.respondents, included k = true ∧ counting k = true ∧ r.shows g ts k = true := by
  simp only [List.any_eq_true, List.mem_range, Bool.and_eq_true]

theorem ascending_classTexts (r : Responses) (included counting : Nat → Bool) (g : Group) :
    (classTexts r included counting g).Pairwise fun ts us =>
      Answer.orderAll (r.firstAnswers included g ts) (r.firstAnswers included g us) = .lt := by
  refine List.Pairwise.filter _ (List.pairwise_map.mpr ?_)
  refine (numbers_classes r included g).ascending.imp_of_mem fun {a b} ha hb hab => ?_
  rw [firstAnswers_eq ha, firstAnswers_eq hb]
  exact hab

/-- **The classes of a group list the texts that respondents show.** -/
theorem lists_classTexts (r : Responses) (included counting : Nat → Bool) (g : Group) :
    Lists r included counting g (classTexts r included counting g) where
  mem_iff ts := by
    unfold classTexts
    rw [List.mem_filter, any_range_iff, List.mem_map, exists_class_iff]
    constructor
    · rintro ⟨-, h⟩
      exact h
    · rintro ⟨k, hk, hincluded, hcounting, hshows⟩
      exact ⟨⟨k, hk, hincluded, hshows⟩, k, hk, hincluded, hcounting, hshows⟩
  nodup := by
    have hself : ∀ as, Answer.orderAll as as = .eq := fun _ => Std.ReflCmp.compare_self
    refine (ascending_classTexts r included counting g).imp fun {ts us} hlt heq => ?_
    rw [heq, hself] at hlt
    exact nomatch hlt
  ascending := ascending_classTexts r included counting g

/-! ## The labels of the classes -/

/-- The label for texts of a group: the ids paired with the texts, and filler. -/
def dataLabel (depth i : Nat) (g : Group) (ts : List String) : Label :=
  { path := Path.pad depth (g.zip ts), kind := .data i, statistic := .count }

/-- The labels for the texts of the groups, group by group. -/
def dataLabels (depth : Nat) (gs : List Group) (texts : Group → List (List String)) : List Label :=
  gs.zipIdx.flatMap fun entry => (texts entry.1).map (dataLabel depth entry.2 entry.1)

theorem mem_dataLabels {depth : Nat} {gs : List Group} {texts : Group → List (List String)}
    {l : Label} : l ∈ dataLabels depth gs texts ↔
      ∃ i g, gs[i]? = some g ∧ ∃ ts ∈ texts g, dataLabel depth i g ts = l := by
  simp only [dataLabels, List.mem_flatMap, List.mem_map, List.mem_zipIdx_iff_getElem?]
  constructor
  · rintro ⟨entry, hentry, ts, hts, hl⟩
    exact ⟨entry.2, entry.1, hentry, ts, hts, hl⟩
  · rintro ⟨i, g, hi, ts, hts, hl⟩
    exact ⟨(g, i), hi, ts, hts, hl⟩

/-- The lines of classes that are kept have the labels of the texts that count. -/
theorem map_label_classLines {gs : List Group} (kept : Line → Bool) (depth : Nat)
    (hkept : ∀ i g c, gs[i]? = some g → c ∈ (classes r included g).sorted →
      (kept (.data i c.2) = true ↔ ∃ k < r.respondents, included k = true ∧ counting k = true ∧
        r.shows g (c.1.answers.map Answer.display) k = true)) :
    ((classLines r included gs).filter fun entry => kept entry.1).map (label depth) =
      dataLabels depth gs (classTexts r included counting) := by
  unfold classLines dataLabels
  rw [List.filter_flatMap, List.map_flatMap]
  apply List.flatMap_congr
  intro entry hentry
  have hi := List.mem_zipIdx_iff_getElem?.mp hentry
  rw [classTexts, List.filter_map, List.filter_map, List.map_map, List.map_map]
  refine congrArg (List.map _) (List.filter_congr fun c hc => ?_)
  rw [Bool.eq_iff_iff]
  simp only [Function.comp_apply, any_range_iff]
  exact hkept entry.2 entry.1 c hi hc

theorem labels_tableRows (r : Responses) (d : Design) (o : Options) (depth : Nat) :
    (tableRows r d o).map (label depth) =
      dataLabels depth d.rows (classTexts r (r.includes d o) (r.inColumns d o)) ++
        [{ path := Path.pad depth [(baseId, Statistic.count.marker)], kind := .base,
           statistic := .count }] := by
  rw [tableRows, List.map_append,
    map_label_classLines (isKept r d o) depth fun i g c hi hc => isKept_iff hi hc]
  rfl

theorem labels_tableColumns (r : Responses) (d : Design) (o : Options) (depth : Nat) :
    (tableColumns r d o).map (label depth) =
      (if o.columnTotal then
        [{ path := Path.pad depth [(totalId, "")], kind := .total, statistic := .count }]
      else []) ++ dataLabels depth d.columns (classTexts r (r.includes d o) fun _ => true) := by
  have hall : ((classLines r (r.includes d o) d.columns).filter fun _ => true).map (label depth) =
      dataLabels depth d.columns (classTexts r (r.includes d o) fun _ => true) := by
    apply map_label_classLines (fun _ => true) depth
    intro i g c _ hc
    simpa using exists_class_iff.mp ⟨c, hc, rfl⟩
  rw [List.filter_true] at hall
  rw [tableColumns, List.map_append, hall]
  cases o.columnTotal <;> rfl

/-! ## A small table -/

/-- Two respondents who said both things, and one who left one out. -/
def sample : Responses where
  columns := (Catalog.empty.push { id := "sex", answers := #[.text "f", .text "f", .missing] }).push
    { id := "pet", answers := #[.text "dog", .text "dog", .text "cat"] }
  respondents := 3

/-- One variable against the other. -/
def sampleDesign : Design where
  rows := [["sex"]]
  columns := [["pet"]]

/-- No total column. -/
def sampleOptions : Options where
  columnTotal := false

/-- The table of the sample. -/
def sampleTable : Table Float :=
  tabulate sample sampleDesign sampleOptions (weights sample sampleDesign sampleOptions)

set_option maxRecDepth 100000 in
theorem reachable_sample : sample.Reachable := by
  have h : ofRows ["sex", "pet"] [[.text "f", .text "dog"], [.text "f", .text "dog"],
      [.missing, .text "cat"]] = .ok sample := by
    cbv
  exact .ofRows h

set_option maxRecDepth 100000 in
theorem accepted_of_sampleIds {d : Design} {o : Options} (hrows : d.rows ≠ []) (hcolumns : d.columns ≠ [])
    (hgroup : ∀ axis, ∀ g ∈ d.groups axis, g ≠ [] ∧ ∀ id ∈ g, id ∈ ["sex", "pet"])
    (hweight : o.weight = none) : Accepted sample d o where
  rows_ne_nil := hrows
  columns_ne_nil := hcolumns
  group axis g hg := by
    have hsex : sample.contains "sex" = true := by cbv
    have hpet : sample.contains "pet" = true := by cbv
    refine ⟨(hgroup axis g hg).1, fun id hid => ?_⟩
    rcases List.mem_pair.mp ((hgroup axis g hg).2 id hid) with rfl | rfl
    · exact hsex
    · exact hpet
  weight := by simp [hweight]

theorem accepted_sample : Accepted sample sampleDesign sampleOptions :=
  accepted_of_sampleIds (by decide) (by decide) (by intro axis; cases axis <;> decide) rfl

theorem build_sample : build sample sampleDesign sampleOptions = .ok sampleTable :=
  build_eq_ok_iff.mpr ⟨accepted_sample, rfl⟩

/-! ## The layout -/

/-- The rows and columns of a table are those of the listed texts, with the base row and perhaps the
total column, and the labels of an axis have the same length. -/
structure HasLayout (r : Responses) (d : Design) (o : Options) (t : Table Float)
    (rowTexts columnTexts : Group → List (List String)) (rowDepth columnDepth : Nat) : Prop where
  rows_listed : ∀ g ∈ d.rows, Lists r (r.includes d o) (r.inColumns d o) g (rowTexts g)
  columns_listed : ∀ h ∈ d.columns, Lists r (r.includes d o) (fun _ => true) h (columnTexts h)
  rows_eq : t.rows = dataLabels rowDepth d.rows rowTexts ++
    [{ path := Path.pad rowDepth [(baseId, Statistic.count.marker)], kind := .base,
       statistic := .count }]
  columns_eq : t.columns =
    (if o.columnTotal then
      [{ path := Path.pad columnDepth [(totalId, "")], kind := .total, statistic := .count }]
    else []) ++ dataLabels columnDepth d.columns columnTexts
  length_row : ∀ l ∈ t.rows, l.path.length = rowDepth
  length_column : ∀ l ∈ t.columns, l.path.length = columnDepth

/-- **The layout of a table.** Within a group, the rows and columns are in the strict order of the answers
that the first included respondent gave who shows their texts. -/
theorem build_layout (hr : r.Reachable) (hb : build r d o = .ok t) :
    ∃ rowTexts columnTexts rowDepth columnDepth,
      HasLayout r d o t rowTexts columnTexts rowDepth columnDepth := by
  obtain ⟨haccepted, ht⟩ := build_eq_ok_iff.mp hb
  obtain ⟨hrows, hcolumns, -⟩ := tabulate_eq hr.valid haccepted ht
  refine ⟨classTexts r (r.includes d o) (r.inColumns d o),
    classTexts r (r.includes d o) fun _ => true, depth (tableRows r d o),
    depth (tableColumns r d o), ?_⟩
  refine ⟨fun g _ => lists_classTexts r _ _ g, fun h _ => lists_classTexts r _ _ h, ?_, ?_, ?_, ?_⟩
  · rw [hrows, labels_eq, labels_tableRows]
  · rw [hcolumns, labels_eq, labels_tableColumns]
  · intro l hl
    rw [hrows] at hl
    exact length_path_of_mem_labels hl
  · intro l hl
    rw [hcolumns] at hl
    exact length_path_of_mem_labels hl

/-- The layout of a small table. -/
theorem build_layout_sample : sample.Reachable ∧
    build sample sampleDesign sampleOptions = .ok sampleTable ∧
    ∃ rowTexts columnTexts rowDepth columnDepth,
      HasLayout sample sampleDesign sampleOptions sampleTable rowTexts columnTexts rowDepth
        columnDepth :=
  ⟨reachable_sample, build_sample, build_layout reachable_sample build_sample⟩

end SurveyTables.Tabulation
