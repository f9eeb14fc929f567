import SurveyTables.Proofs.Tabulation.Bases

/-!
# Tables by their labels

What a table counts in a cell follows from the labels of its row and its column alone, filler aside.

* `Label.bare`: a label without its filler;
* `Responses.belongs`, `Responses.common`: who belongs to a row or a column, and to both;
* `Responses.cellOf`, `Responses.sumOf`: what these respondents weigh together, also in other numbers;
* `rows_eq`, `columns_eq`: the labels of a table are those of the texts of its classes;
* `mem_dataLabels_of_mem_rows`, `mem_dataLabels_of_mem_columns`: a row or a column with a group of its
  own is one of these;
* `labels_eq_of_map_label`: the lines of a table settle its labels, filler included;
* **`cells_eq_sumOf`**, **`cells_eq`**: every cell of a table is the one that its labels tell;
* **`Lists.unique`**: who shows which texts, and who shows them first, settles the list of the texts.
-/

namespace SurveyTables

/-- The label without its filler. -/
def Label.bare (l : Label) : Label :=
  { l with path := l.pairs }

namespace Responses

/-- The respondent belongs to the row or the column with the label. -/
def belongs (r : Responses) (l : Label) (respondent : Nat) : Bool :=
  match l.kind with
  | .data _ => r.shows l.ids l.texts respondent
  | .total | .base => true

/-- The included respondents who belong to the row and to the column. -/
def common (r : Responses) (d : Design) (o : Options) (row column : Label) : List Nat :=
  (List.range r.respondents).filter fun k =>
    r.includes d o k && (r.belongs row k && r.belongs column k)

/-- What the respondents of the row and the column weigh together, added up in order from 0. Nobody
leaves the cell empty, except where the base row meets the total column. -/
def cellOf (r : Responses) (d : Design) (o : Options) (row column : Label) : Option Float :=
  if row.kind = .base ∧ column.kind = .total then some (r.weigh o (r.common d o row column))
  else r.total o (r.common d o row column)

/-- What the respondents of the row and the column weigh together, in numbers of any type. -/
def sumOf {α : Type} [Zero α] [Add α] (r : Responses) (d : Design) (o : Options) (weight : Nat → α)
    (row column : Label) : Option α :=
  Tabulation.Tally.sumFrom (if row.kind = .base ∧ column.kind = .total then some 0 else none)
    ((r.common d o row column).map weight)

theorem isSome_sumOf {α : Type} [Zero α] [Add α] (r : Responses) (d : Design) (o : Options)
    (weight : Nat → α) (row column : Label) : (r.sumOf d o weight row column).isSome =
      (decide (row.kind = .base ∧ column.kind = .total) || !(r.common d o row column).isEmpty) := by
  rw [sumOf, Tabulation.Tally.isSome_sumFrom, List.isEmpty_map]
  by_cases hcorner : row.kind = .base ∧ column.kind = .total
  · rw [if_pos hcorner, decide_eq_true hcorner]
    rfl
  · rw [if_neg hcorner, decide_eq_false hcorner]
    rfl

theorem cellOf_eq_sumOf (r : Responses) (d : Design) (o : Options) (row column : Label) :
    r.cellOf d o row column = r.sumOf d o (r.weightIn o) row column := by
  rw [cellOf, sumOf]
  split
  · rw [Tabulation.Tally.sumFrom_some]
    rfl
  · rw [Tabulation.Tally.sumFrom_none, total]
    simp only [List.isEmpty_iff, List.map_eq_nil_iff]
    rfl

end Responses

/-! ## Labels without filler -/

namespace Label

theorem pairs_bare (l : Label) : l.bare.pairs = l.pairs := by
  rw [bare, pairs, pairs, List.takeWhile_idem]

theorem ids_bare (l : Label) : l.bare.ids = l.ids := by
  rw [ids, ids, pairs_bare]

theorem texts_bare (l : Label) : l.bare.texts = l.texts := by
  rw [texts, texts, pairs_bare]

end Label

namespace Tabulation

open Responses

variable {r : Responses} {d : Design} {o : Options} {t : Table Float}

theorem belongs_bare (l : Label) : r.belongs l.bare = r.belongs l := by
  funext k
  rw [belongs, belongs, Label.ids_bare, Label.texts_bare]
  rfl

theorem cellOf_bare (row column : Label) : r.cellOf d o row.bare column.bare = r.cellOf d o row column := by
  rw [cellOf, cellOf, common, common, belongs_bare, belongs_bare]
  rfl

/-- The label of the base row. -/
def baseLabel (depth : Nat) : Label :=
  { path := Path.pad depth [(baseId, Statistic.count.marker)], kind := .base, statistic := .count }

/-- The label of the total column. -/
def totalLabel (depth : Nat) : Label :=
  { path := Path.pad depth [(totalId, "")], kind := .total, statistic := .count }

theorem ids_ne_empty (hr : r.Valid) (h : Accepted r d o) (axis : Axis) :
    ∀ g ∈ d.groups axis, ∀ id ∈ g, id ≠ "" :=
  fun g hg id hid => hr.ne_empty_of_contains ((h.group axis g hg).2 id hid)

theorem pairs_dataLabel {g : Group} (hg : ∀ id ∈ g, id ≠ "") (depth i : Nat) (ts : List String) :
    (dataLabel depth i g ts).pairs = g.zip ts :=
  takeWhile_pad (fun pair hpair => hg pair.1 (List.of_mem_zip hpair).1) depth

theorem ids_dataLabel {g : Group} (hg : ∀ id ∈ g, id ≠ "") {ts : List String}
    (hts : ts.length = g.length) (depth i : Nat) : (dataLabel depth i g ts).ids = g := by
  rw [Label.ids, pairs_dataLabel hg, List.map_fst_zip (by omega)]

theorem texts_dataLabel {g : Group} (hg : ∀ id ∈ g, id ≠ "") {ts : List String}
    (hts : ts.length = g.length) (depth i : Nat) : (dataLabel depth i g ts).texts = ts := by
  rw [Label.texts, pairs_dataLabel hg, List.map_snd_zip (by omega)]

theorem pairs_totalLabel (depth : Nat) : (totalLabel depth).pairs = [(totalId, "")] :=
  takeWhile_pad (by simp [totalId]) depth

theorem pairs_baseLabel (depth : Nat) :
    (baseLabel depth).pairs = [(baseId, Statistic.count.marker)] :=
  takeWhile_pad (by simp [baseId]) depth

/-! ## The labels of a table -/

/-- The texts of the rows of a group. -/
def rowTexts (r : Responses) (d : Design) (o : Options) : Group → List (List String) :=
  classTexts r (r.includes d o) (r.inColumns d o)

/-- The texts of the columns of a group. -/
def columnTexts (r : Responses) (d : Design) (o : Options) : Group → List (List String) :=
  classTexts r (r.includes d o) fun _ => true

theorem lists_rowTexts (r : Responses) (d : Design) (o : Options) (g : Group) :
    Lists r (r.includes d o) (r.inColumns d o) g (rowTexts r d o g) :=
  lists_classTexts r _ _ g

theorem lists_columnTexts (r : Responses) (d : Design) (o : Options) (g : Group) :
    Lists r (r.includes d o) (fun _ => true) g (columnTexts r d o g) :=
  lists_classTexts r _ _ g

theorem length_of_mem_classTexts {included counting : Nat → Bool} {g : Group} {ts : List String}
    (h : ts ∈ classTexts r included counting g) : ts.length = g.length := by
  obtain ⟨k, -, -, -, hshows⟩ := ((lists_classTexts r included counting g).mem_iff ts).mp h
  rw [← (shows_iff.mp hshows).2, texts, List.length_map]

theorem rows_eq (hr : r.Valid) (h : Accepted r d o) (ht : t = tabulate r d o (weights r d o)) :
    t.rows = dataLabels (depth (tableRows r d o)) d.rows (rowTexts r d o) ++
      [baseLabel (depth (tableRows r d o))] := by
  rw [(tabulate_eq hr h ht).1, labels_eq, labels_tableRows]
  rfl

theorem columns_eq (hr : r.Valid) (h : Accepted r d o) (ht : t = tabulate r d o (weights r d o)) :
    t.columns = (if o.columnTotal then [totalLabel (depth (tableColumns r d o))] else []) ++
      dataLabels (depth (tableColumns r d o)) d.columns (columnTexts r d o) := by
  rw [(tabulate_eq hr h ht).2.1, labels_eq, labels_tableColumns]
  rfl

theorem dataLabels_congr {gs : List Group} {texts texts' : Group → List (List String)} (depth : Nat)
    (htexts : ∀ g ∈ gs, texts' g = texts g) :
    dataLabels depth gs texts' = dataLabels depth gs texts := by
  unfold dataLabels
  apply List.flatMap_congr
  intro entry hentry
  rw [htexts entry.1 (List.mem_of_getElem? (List.mem_zipIdx_iff_getElem?.mp hentry))]

/-- The lines settle their labels, filler included. -/
theorem labels_eq_of_map_label {entries entries' : List (Line × Path)}
    (hlabel : ∀ depth, entries'.map (label depth) = entries.map (label depth)) :
    labels entries' = labels entries := by
  have hdepth : depth entries' = depth entries := by
    have hpaths : ∀ es : List (Line × Path), es.map Prod.snd = (es.map (label 0)).map Label.path := by
      intro es
      rw [List.map_map]
      refine List.map_congr_left fun entry _ => ?_
      rw [Function.comp_apply, label, Path.pad, Nat.zero_sub, List.replicate_zero, List.append_nil]
    rw [depth, depth, hpaths, hpaths, hlabel]
  rw [labels_eq, labels_eq, hdepth, hlabel]

theorem ids_mem_of_mem_dataLabels {gs : List Group} (hgs : ∀ g ∈ gs, ∀ id ∈ g, id ≠ "")
    {texts : Group → List (List String)} (htexts : ∀ g, ∀ ts ∈ texts g, ts.length = g.length)
    {depth : Nat} {l : Label} (hl : l ∈ dataLabels depth gs texts) : l.ids ∈ gs := by
  obtain ⟨i, g, hi, ts, hts, rfl⟩ := mem_dataLabels.mp hl
  have hg := List.mem_of_getElem? hi
  rwa [ids_dataLabel (hgs g hg) (htexts g ts hts)]

section Groups

variable (hr : r.Valid) (ha : Accepted r d o) (ht : t = tabulate r d o (weights r d o)) {l : Label}
include hr ha ht

theorem mem_dataLabels_of_mem_rows (hl : l ∈ t.rows) {i : Nat} (hi : l.kind = .data i) :
    l ∈ dataLabels (depth (tableRows r d o)) d.rows (rowTexts r d o) := by
  rw [rows_eq hr ha ht, List.mem_append, List.mem_singleton] at hl
  refine hl.resolve_right ?_
  rintro rfl
  exact nomatch hi

theorem mem_dataLabels_of_mem_columns (hl : l ∈ t.columns) {i : Nat} (hi : l.kind = .data i) :
    l ∈ dataLabels (depth (tableColumns r d o)) d.columns (columnTexts r d o) := by
  rw [columns_eq hr ha ht, List.mem_append] at hl
  refine hl.resolve_left fun htotal => ?_
  split at htotal
  · rw [List.mem_singleton.mp htotal] at hi
    exact nomatch hi
  · exact nomatch htotal

theorem ids_mem_rows (hl : l ∈ t.rows) {i : Nat} (hi : l.kind = .data i) : l.ids ∈ d.rows :=
  ids_mem_of_mem_dataLabels (ids_ne_empty hr ha .rows) (fun _ _ hts => length_of_mem_classTexts hts)
    (mem_dataLabels_of_mem_rows hr ha ht hl hi)

theorem ids_mem_columns (hl : l ∈ t.columns) {i : Nat} (hi : l.kind = .data i) :
    l.ids ∈ d.columns :=
  ids_mem_of_mem_dataLabels (ids_ne_empty hr ha .columns) (fun _ _ hts => length_of_mem_classTexts hts)
    (mem_dataLabels_of_mem_columns hr ha ht hl hi)

end Groups

/-! ## The cells of a table -/

section Cells

variable (hr : r.Valid) (h : Accepted r d o)
include hr h

theorem mem_rowLines_iff_belongs {entry : Line × Path} (he : entry ∈ tableRows r d o) (depth : Nat)
    {k : Nat} (hk : k < r.respondents) (hincluded : r.includes d o k = true) :
    entry.1 ∈ rowLines (d.rows.map (classes r (r.includes d o))) k ↔
      r.belongs (label depth entry) k = true := by
  rw [tableRows, List.mem_append, List.mem_filter, List.mem_singleton] at he
  rcases he with ⟨hclass, -⟩ | rfl
  · obtain ⟨i, hi⟩ := exists_kind_of_mem_classLines hclass
    obtain ⟨hgroup, c, hc, hline, htexts⟩ :=
      exists_class_of_label hr (fun g hg => (h.group .rows g hg).2) hclass depth hi
    have hgroup : d.rows[i]? = _ := hgroup
    rw [hline, data_mem_rows_of_included hgroup hc hk hincluded, htexts, belongs,
      show (label depth entry).kind = .data i from hi]
  · exact iff_of_true base_mem_rowLines rfl

theorem mem_columnLines_iff_belongs {entry : Line × Path} (he : entry ∈ tableColumns r d o)
    (depth : Nat) {k : Nat} (hk : k < r.respondents) (hincluded : r.includes d o k = true) :
    entry.1 ∈ columnLines o.columnTotal (d.columns.map (classes r (r.includes d o))) k ↔
      r.belongs (label depth entry) k = true := by
  rcases mem_tableColumns he with ⟨ho, htotal⟩ | hclass
  · rw [htotal, belongs, show (label depth entry).kind = .total by rw [label, htotal]; rfl]
    exact iff_of_true (total_mem_columnLines.mpr ho) rfl
  · obtain ⟨j, hj⟩ := exists_kind_of_mem_classLines hclass
    obtain ⟨hgroup, c, hc, hline, htexts⟩ :=
      exists_class_of_label hr (fun g hg => (h.group .columns g hg).2) hclass depth hj
    have hgroup : d.columns[j]? = _ := hgroup
    rw [hline, data_mem_columns_of_included hgroup hc hk hincluded, htexts, belongs,
      show (label depth entry).kind = .data j from hj]

theorem participants_eq_common {row column : Line × Path} (hrow : row ∈ tableRows r d o)
    (hcolumn : column ∈ tableColumns r d o) (rowDepth columnDepth : Nat) :
    participants r d o row.1 column.1 =
      r.common d o (label rowDepth row) (label columnDepth column) :=
  participants_eq_filter (fun _ hk hi => mem_rowLines_iff_belongs hr h hrow rowDepth hk hi)
    fun _ hk hi => mem_columnLines_iff_belongs hr h hcolumn columnDepth hk hi

omit hr h in
theorem kinds_label_iff (row column : Line × Path) (rowDepth columnDepth : Nat) :
    (label rowDepth row).kind = .base ∧ (label columnDepth column).kind = .total ↔
      row.1 = .base ∧ column.1 = .total := by
  rw [label, label]
  cases row.1 <;> cases column.1 <;> simp [Line.kind]

theorem getElem?_countsOf_eq_sumOf {α : Type} [Zero α] [Add α] (weight : Nat → α)
    {row column : Line × Path} (hrow : row ∈ tableRows r d o) (hcolumn : column ∈ tableColumns r d o)
    (rowDepth columnDepth : Nat) : (countsOf r d o weight)[(row.1, column.1)]? =
      r.sumOf d o weight (label rowDepth row) (label columnDepth column) := by
  rw [getElem?_countsOf, sumOf, participants_eq_common hr h hrow hcolumn rowDepth columnDepth]
  simp only [kinds_label_iff]

theorem cells_eq_sumOf {α : Type} [Zero α] [Add α] (weight : Nat → α) {s : Table α}
    (hs : s = tabulate r d o (weightsOf r.respondents (r.includes d o) weight)) :
    s.cells = s.rows.map fun row => s.columns.map fun column => r.sumOf d o weight row column := by
  obtain ⟨hrows, hcolumns, hcells⟩ := tabulate_weightsOf hr h weight hs
  rw [hcells, hrows, hcolumns, labels_eq, labels_eq, List.map_map]
  apply List.map_congr_left
  intro row hrow
  rw [Function.comp_apply, List.map_map]
  apply List.map_congr_left
  intro column hcolumn
  exact getElem?_countsOf_eq_sumOf hr h weight hrow hcolumn _ _

/-- **Every cell of a table is the one that its labels tell.** -/
theorem cells_eq (ht : t = tabulate r d o (weights r d o)) :
    t.cells = t.rows.map fun row => t.columns.map fun column => r.cellOf d o row column := by
  simp only [cellOf_eq_sumOf]
  rw [weights_eq hr h] at ht
  exact cells_eq_sumOf hr h (r.weightIn o) ht

omit hr h in
theorem cell_eq_bind {α : Type} {s : Table α} {f : Label → Label → Option α}
    (hcells : s.cells = s.rows.map fun row => s.columns.map fun column => f row column) (x y : Nat) :
    s.cell x y = s.rows[x]?.bind fun row => s.columns[y]?.bind fun column => f row column := by
  rw [Table.cell, hcells, List.getElem?_map]
  cases s.rows[x]? with
  | none => rfl
  | some row =>
    rw [Option.map_some, Option.bind_some, Option.bind_some, List.getElem?_map]
    cases s.columns[y]? <;> rfl

theorem cell_eq_cellOf (ht : t = tabulate r d o (weights r d o)) {x y : Nat} {row column : Label}
    (hx : t.rows[x]? = some row) (hy : t.columns[y]? = some column) :
    t.cell x y = r.cellOf d o row column := by
  rw [cell_eq_bind (cells_eq hr h ht), hx, Option.bind_some, hy, Option.bind_some]

end Cells

theorem belongs_dataLabel {g : Group} (hg : ∀ id ∈ g, id ≠ "") {ts : List String}
    (hts : ts.length = g.length) (depth i : Nat) :
    r.belongs (dataLabel depth i g ts) = r.shows g ts := by
  funext k
  rw [belongs, ids_dataLabel hg hts, texts_dataLabel hg hts]
  rfl

theorem belongs_of_base {l : Label} (hl : l.kind = .base) (k : Nat) : r.belongs l k = true := by
  rw [belongs, hl]

theorem belongs_of_total {l : Label} (hl : l.kind = .total) (k : Nat) : r.belongs l k = true := by
  rw [belongs, hl]

theorem belongs_totalLabel (depth k : Nat) : r.belongs (totalLabel depth) k = true := rfl

theorem cellOf_dataLabel {g h : Group} (hg : ∀ id ∈ g, id ≠ "") (hh : ∀ id ∈ h, id ≠ "")
    {ts us : List String} (hts : ts.length = g.length) (hus : us.length = h.length)
    (rowDepth columnDepth i j : Nat) :
    r.cellOf d o (dataLabel rowDepth i g ts) (dataLabel columnDepth j h us) =
      r.total o (r.counted d o g ts h us) := by
  rw [cellOf, common, belongs_dataLabel hg hts, belongs_dataLabel hh hus,
    if_neg (by simp [dataLabel])]
  rfl

/-! ## Lists of texts -/

/-- **Who shows which texts settles which texts are listed, and who shows them first settles their
order.** -/
theorem Lists.unique {r' : Responses} {included counting included' counting' : Nat → Bool} {g : Group}
    {ts ts' : List (List String)} (h : Lists r included counting g ts)
    (h' : Lists r' included' counting' g ts') (hmem : ∀ us, us ∈ ts ↔ us ∈ ts')
    (hfirst : ∀ us ∈ ts, r'.firstAnswers included' g us = r.firstAnswers included g us) :
    ts = ts' := by
  have hperm : ts.Perm ts' := (List.perm_ext_iff_of_nodup h.nodup h'.nodup).mpr hmem
  have hascending : ts'.Pairwise fun us vs =>
      Answer.orderAll (r.firstAnswers included g us) (r.firstAnswers included g vs) = .lt := by
    refine h'.ascending.imp_of_mem fun {us vs} hus hvs hlt => ?_
    rwa [hfirst us ((hmem us).mpr hus), hfirst vs ((hmem vs).mpr hvs)] at hlt
  refine hperm.eq_of_pairwise (fun us vs _ _ hlt hgt => ?_) h.ascending hascending
  -- no two rows of answers are each before the other
  have hswap : Answer.orderAll (r.firstAnswers included g us) (r.firstAnswers included g vs) =
      (Answer.orderAll (r.firstAnswers included g vs) (r.firstAnswers included g us)).swap :=
    Std.OrientedCmp.eq_swap
  rw [hlt, hgt] at hswap
  exact nomatch hswap

end Tabulation

end SurveyTables
