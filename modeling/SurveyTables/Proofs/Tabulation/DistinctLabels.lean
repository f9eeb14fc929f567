import SurveyTables.Proofs.Tabulation.ShownFiller

/-!
# Labels tell entries apart

A row or a column can be told by its label, filler included: the groups differ in their ids, the entries of
one group in their texts, and the base row and the total column have ids that no variable of the groups has.

* `Path.flat_injective`, `findLabel?_eq`: among labels of one length without doubles, the flat path of a
  label is found at its place;
* `map_pairs_dataLabels`, `nodup_pairs_dataLabels`: the labels of different groups differ before the filler;
* `exists_split_dataLabels`, `columnGroup_of_split`: the columns of a group stand next to each other;
* `HasDistinctLabels`, **`build_hasDistinctLabels`**: the labels of a table tell its entries apart.
-/

namespace SurveyTables

/-! ## Paths as rows of texts -/

theorem Path.flat_injective : Function.Injective Path.flat := by
  intro p
  induction p with
  | nil =>
    intro q h
    cases q with
    | nil => rfl
    | cons pair q => exact nomatch h
  | cons pair p ih =>
    intro q h
    cases q with
    | nil => exact nomatch h
    | cons pair' q =>
      simp only [flat, List.flatMap_cons, List.cons_append, List.nil_append, List.cons.injEq] at h
      obtain ⟨hid, hvalue, hrest⟩ := h
      rw [Prod.ext hid hvalue, ih hrest]

theorem Path.length_flat (p : Path) : p.flat.length = 2 * p.length := by
  induction p with
  | nil => rfl
  | cons pair p ih =>
    simp only [flat, List.flatMap_cons, List.length_append, List.length_cons, List.length_nil] at ih ⊢
    omega

theorem isPrefixOf_flat_iff {p q : Path} (hlength : p.length = q.length) :
    p.flat.isPrefixOf q.flat = true ↔ p = q := by
  rw [List.isPrefixOf_iff_prefix]
  constructor
  · intro h
    refine Path.flat_injective (h.eq_of_length ?_)
    rw [Path.length_flat, Path.length_flat, hlength]
  · rintro rfl
    exact List.prefix_rfl

/-- **A label is found by its flat path**, if all labels have the same length and none stands twice. -/
theorem findLabel?_eq {ls : List Label} {length : Nat} (hlength : ∀ l ∈ ls, l.path.length = length)
    (hnodup : (ls.map Label.path).Nodup) {k : Nat} {l : Label} (hk : ls[k]? = some l) :
    Table.findLabel? l.path.flat ls = some k := by
  obtain ⟨hlt, rfl⟩ := List.getElem?_eq_some_iff.mp hk
  have hfound : ∀ m (hm : m < ls.length),
      ls[k].path.flat.isPrefixOf ls[m].path.flat = true ↔ ls[k].path = ls[m].path := by
    intro m hm
    apply isPrefixOf_flat_iff
    rw [hlength _ (List.getElem_mem _), hlength _ (List.getElem_mem _)]
  rw [Table.findLabel?, List.findIdx?_eq_some_iff_getElem]
  refine ⟨hlt, (hfound k hlt).mpr rfl, fun m hm => ?_⟩
  rw [hfound m (by omega)]
  -- the same path at two places would stand twice
  intro heq
  have hlt' : k < (ls.map Label.path).length := by simpa using hlt
  have hm' : m < (ls.map Label.path).length := by omega
  have hsame : (ls.map Label.path)[k] = (ls.map Label.path)[m] := by simpa using heq
  have hplaces := hnodup.getElem_inj_iff.mp hsame
  omega

/-- The number of the pairs in a label: as many as its group has variables. -/
def Label.Kind.depth? (gs : List Group) : Label.Kind → Option Nat
  | .data i => gs[i]?.map List.length
  | .total | .base => some 1

namespace Tabulation

open Responses

variable {r : Responses} {d : Design} {o : Options} {t : Table Float} {gs : List Group}
  {texts : Group → List (List String)}

/-! ## Labels before the filler -/

theorem map_pairs_dataLabels (hgs : ∀ g ∈ gs, ∀ id ∈ g, id ≠ "") (depth : Nat) :
    (dataLabels depth gs texts).map Label.pairs = gs.flatMap fun g => (texts g).map g.zip := by
  rw [dataLabels, List.map_flatMap]
  conv_rhs => rw [← List.zipIdx_map_fst 0 gs, List.flatMap_map]
  apply List.flatMap_congr
  intro entry hentry
  have hg := hgs entry.1 (List.mem_of_getElem? (List.mem_zipIdx_iff_getElem?.mp hentry))
  rw [List.map_map]
  exact List.map_congr_left fun ts _ => pairs_dataLabel hg depth entry.2 ts

theorem zip_injective {g h : Group} {ts us : List String} (hts : ts.length = g.length)
    (hus : us.length = h.length) (heq : g.zip ts = h.zip us) : g = h ∧ ts = us := by
  constructor
  · have hfst := congrArg (List.map Prod.fst) heq
    rwa [List.map_fst_zip (by omega), List.map_fst_zip (by omega)] at hfst
  · have hsnd := congrArg (List.map Prod.snd) heq
    rwa [List.map_snd_zip (by omega), List.map_snd_zip (by omega)] at hsnd

section Groups

variable (hgs : ∀ g ∈ gs, ∀ id ∈ g, id ≠ "") (htexts : ∀ g, ∀ ts ∈ texts g, ts.length = g.length)
include hgs htexts

/-- Different groups, and different texts for each: no label comes twice. -/
theorem nodup_pairs_dataLabels (hnodup : gs.Nodup) (hlisted : ∀ g, (texts g).Nodup) (depth : Nat) :
    ((dataLabels depth gs texts).map Label.pairs).Nodup := by
  rw [map_pairs_dataLabels hgs, List.nodup_flatMap]
  constructor
  · intro g _
    refine (hlisted g).map_on fun ts hts us hus heq => ?_
    exact (zip_injective (htexts g ts hts) (htexts g us hus) heq).2
  · refine hnodup.imp fun {g h} hne => ?_
    rw [Function.onFun, List.disjoint_left]
    intro p hp hp'
    obtain ⟨ts, hts, rfl⟩ := List.mem_map.mp hp
    obtain ⟨us, hus, heq⟩ := List.mem_map.mp hp'
    exact hne (zip_injective (htexts h us hus) (htexts g ts hts) heq).1.symm

theorem pairs_notMem_dataLabels {pair : Pair} (hid : ∀ g ∈ gs, pair.1 ∉ g) (depth : Nat) :
    [pair] ∉ (dataLabels depth gs texts).map Label.pairs := by
  rw [map_pairs_dataLabels hgs, List.mem_flatMap]
  rintro ⟨g, hg, hp⟩
  obtain ⟨ts, hts, heq⟩ := List.mem_map.mp hp
  have hgroup := congrArg (List.map Prod.fst) heq
  rw [List.map_fst_zip (by rw [htexts g ts hts])] at hgroup
  exact hid g hg (by rw [hgroup]; exact List.mem_singleton_self _)

theorem depth_of_mem_dataLabels {depth : Nat} {l : Label} (hl : l ∈ dataLabels depth gs texts) :
    l.kind.depth? gs = some l.path.depth := by
  obtain ⟨i, g, hi, ts, hts, rfl⟩ := mem_dataLabels.mp hl
  show gs[i]?.map List.length = some (dataLabel depth i g ts).pairs.length
  rw [pairs_dataLabel (hgs g (List.mem_of_getElem? hi)), hi, List.length_zip, htexts g ts hts,
    Nat.min_self]
  rfl

end Groups

theorem nodup_paths_of_nodup_pairs {ls : List Label} (h : (ls.map Label.pairs).Nodup) :
    (ls.map Label.path).Nodup := by
  apply List.Nodup.of_map (List.takeWhile (· != filler))
  rw [List.map_map]
  exact h

/-! ## The columns of a group -/

/-- The labels for the texts of groups with their places. -/
def placedLabels (depth : Nat) (texts : Group → List (List String)) (entries : List (Group × Nat)) :
    List Label :=
  entries.flatMap fun entry => (texts entry.1).map (dataLabel depth entry.2 entry.1)

theorem exists_place_of_mem_placedLabels {depth : Nat} {entries : List (Group × Nat)} {l : Label}
    (hl : l ∈ placedLabels depth texts entries) :
    ∃ m : Nat, ∃ entry : Group × Nat, entries[m]? = some entry ∧ l.kind = .data entry.2 := by
  obtain ⟨entry, hentry, hl⟩ := List.mem_flatMap.mp hl
  obtain ⟨ts, -, rfl⟩ := List.mem_map.mp hl
  obtain ⟨m, hm⟩ := List.mem_iff_getElem?.mp hentry
  exact ⟨m, entry, hm, rfl⟩

theorem exists_split_dataLabels (depth : Nat) (gs : List Group) (texts : Group → List (List String))
    (j : Nat) : ∃ before part after, dataLabels depth gs texts = before ++ part ++ after ∧
      (∀ l ∈ part, l.kind = .data j) ∧ ∀ l ∈ before ++ after, l.kind ≠ .data j := by
  have hplace : ∀ {m : Nat} {entry : Group × Nat}, gs.zipIdx[m]? = some entry → entry.2 = m := by
    intro m entry hm
    rw [List.getElem?_zipIdx, Option.map_eq_some_iff] at hm
    obtain ⟨g, -, rfl⟩ := hm
    exact Nat.zero_add m
  have hsplit : gs.zipIdx = gs.zipIdx.take j ++ gs.zipIdx[j]?.toList ++ gs.zipIdx.drop (j + 1) := by
    rw [← List.take_add_one, List.take_append_drop]
  refine ⟨placedLabels depth texts (gs.zipIdx.take j), placedLabels depth texts gs.zipIdx[j]?.toList,
    placedLabels depth texts (gs.zipIdx.drop (j + 1)), ?_, fun l hl => ?_, fun l hl => ?_⟩
  · rw [placedLabels, placedLabels, placedLabels, ← List.flatMap_append, ← List.flatMap_append, ← hsplit]
    rfl
  · obtain ⟨m, entry, hm, hl⟩ := exists_place_of_mem_placedLabels hl
    rw [hl, hplace (Option.mem_toList.mp (List.mem_of_getElem? hm))]
  · rw [List.mem_append] at hl
    rcases hl with hl | hl
    · obtain ⟨m, entry, hm, hl⟩ := exists_place_of_mem_placedLabels hl
      rw [List.getElem?_take] at hm
      split at hm
      · next hlt =>
        rw [hl, hplace hm, ne_eq, Label.Kind.data.injEq]
        omega
      · exact nomatch hm
    · obtain ⟨m, entry, hm, hl⟩ := exists_place_of_mem_placedLabels hl
      rw [List.getElem?_drop] at hm
      rw [hl, hplace hm, ne_eq, Label.Kind.data.injEq]
      omega

theorem columnGroup_of_split {j : Nat} {before part after : List Label}
    (hcolumns : t.columns = before ++ part ++ after) (hpart : ∀ l ∈ part, l.kind = .data j)
    (hothers : ∀ l ∈ before ++ after, l.kind ≠ .data j) :
    t.columnGroup j = List.range' before.length part.length := by
  have hnone : ∀ (ls : List Label) n, (∀ l ∈ ls, l.kind ≠ .data j) →
      (ls.zipIdx n).filter (fun entry => entry.1.kind == .data j) = [] := by
    intro ls n hls
    rw [List.filter_eq_nil_iff]
    intro entry hentry
    rw [beq_iff_eq]
    exact hls _ (List.fst_mem_of_mem_zipIdx hentry)
  have hall : (part.zipIdx before.length).filter (fun entry => entry.1.kind == .data j) =
      part.zipIdx before.length := by
    rw [List.filter_eq_self]
    intro entry hentry
    rw [beq_iff_eq]
    exact hpart _ (List.fst_mem_of_mem_zipIdx hentry)
  rw [Table.columnGroup, hcolumns, List.zipIdx_append, List.zipIdx_append, List.filter_append,
    List.filter_append, hnone before _ fun l hl => hothers l (List.mem_append_left _ hl),
    hnone after _ fun l hl => hothers l (List.mem_append_right _ hl), Nat.zero_add, hall,
    List.nil_append, List.append_nil, List.zipIdx_map_snd]

/-! ## The labels of a table -/

/-- The labels of a table tell its entries apart. No two rows and no two columns have the same path, and
each is found by its path. A label has a pair for every variable of its group, and one on the base row
and the total column. The columns of a group are those of a range of places. -/
structure HasDistinctLabels (d : Design) (t : Table Float) : Prop where
  nodup_rows : (t.rows.map Label.path).Nodup
  nodup_columns : (t.columns.map Label.path).Nodup
  findRow?_eq : ∀ k row, t.rows[k]? = some row → t.findRow? row.path.flat = some k
  findColumn?_eq : ∀ k column, t.columns[k]? = some column →
    t.findColumn? column.path.flat = some k
  depth_row : ∀ row ∈ t.rows, row.kind.depth? d.rows = some row.path.depth
  depth_column : ∀ column ∈ t.columns, column.kind.depth? d.columns = some column.path.depth
  columnGroup_eq : ∀ j, ∃ before part after, t.columns = before ++ part ++ after ∧
    (∀ l ∈ part, l.kind = .data j) ∧ (∀ l ∈ before ++ after, l.kind ≠ .data j) ∧
    t.columnGroup j = List.range' before.length part.length

section Table

variable (hr : r.Valid) (ha : Accepted r d o) (ht : t = tabulate r d o (weights r d o))
include hr ha ht

theorem nodup_pairs_rows (hrows : d.rows.Nodup) (hbase : ∀ g ∈ d.rows, baseId ∉ g) :
    (t.rows.map Label.pairs).Nodup := by
  have hgs : ∀ g ∈ d.rows, ∀ id ∈ g, id ≠ "" := ids_ne_empty hr ha .rows
  have htexts : ∀ g, ∀ ts ∈ rowTexts r d o g, ts.length = g.length :=
    fun _ _ hts => length_of_mem_classTexts hts
  rw [rows_eq hr ha ht, List.map_append, List.map_singleton, pairs_baseLabel, ← List.concat_eq_append,
    List.nodup_concat]
  exact ⟨pairs_notMem_dataLabels hgs htexts hbase _,
    nodup_pairs_dataLabels hgs htexts hrows (fun g => (lists_rowTexts r d o g).nodup) _⟩

theorem nodup_pairs_columns (hcolumns : d.columns.Nodup) (htotal : ∀ g ∈ d.columns, totalId ∉ g) :
    (t.columns.map Label.pairs).Nodup := by
  have hgs : ∀ g ∈ d.columns, ∀ id ∈ g, id ≠ "" := ids_ne_empty hr ha .columns
  have htexts : ∀ g, ∀ us ∈ columnTexts r d o g, us.length = g.length :=
    fun _ _ hus => length_of_mem_classTexts hus
  have hnodup := nodup_pairs_dataLabels hgs htexts hcolumns
    (fun g => (lists_columnTexts r d o g).nodup) (depth (tableColumns r d o))
  rw [columns_eq hr ha ht]
  split
  · rw [List.singleton_append, List.map_cons, pairs_totalLabel, List.nodup_cons]
    exact ⟨pairs_notMem_dataLabels hgs htexts htotal _, hnodup⟩
  · exact hnodup

theorem depth_of_mem_rows {row : Label} (hrow : row ∈ t.rows) :
    row.kind.depth? d.rows = some row.path.depth := by
  rw [rows_eq hr ha ht, List.mem_append, List.mem_singleton] at hrow
  rcases hrow with hrow | rfl
  · exact depth_of_mem_dataLabels (ids_ne_empty hr ha .rows) (fun _ _ => length_of_mem_classTexts) hrow
  · show some 1 = some (baseLabel _).pairs.length
    rw [pairs_baseLabel]
    rfl

theorem depth_of_mem_columns {column : Label} (hcolumn : column ∈ t.columns) :
    column.kind.depth? d.columns = some column.path.depth := by
  rw [columns_eq hr ha ht, List.mem_append] at hcolumn
  rcases hcolumn with hcolumn | hcolumn
  · split at hcolumn
    · rw [List.mem_singleton.mp hcolumn]
      show some 1 = some (totalLabel _).pairs.length
      rw [pairs_totalLabel]
      rfl
    · exact nomatch hcolumn
  · exact depth_of_mem_dataLabels (ids_ne_empty hr ha .columns)
      (fun _ _ => length_of_mem_classTexts) hcolumn

theorem exists_split_columns (j : Nat) : ∃ before part after, t.columns = before ++ part ++ after ∧
    (∀ l ∈ part, l.kind = .data j) ∧ ∀ l ∈ before ++ after, l.kind ≠ .data j := by
  obtain ⟨before, part, after, hsplit, hpart, hothers⟩ :=
    exists_split_dataLabels (depth (tableColumns r d o)) d.columns (columnTexts r d o) j
  refine ⟨(if o.columnTotal then [totalLabel (depth (tableColumns r d o))] else []) ++ before, part,
    after, ?_, hpart, fun l hl => ?_⟩
  · rw [columns_eq hr ha ht, hsplit]
    simp only [List.append_assoc]
  · rw [List.append_assoc, List.mem_append] at hl
    rcases hl with hl | hl
    · split at hl
      · rw [List.mem_singleton.mp hl]
        exact Label.Kind.noConfusion
      · exact nomatch hl
    · exact hothers l hl

end Table

/-- **The labels of a table tell its entries apart**, if no group of rows and no group of columns comes
twice, no row variable is named as the base row is, and no column variable as the total column. -/
theorem build_hasDistinctLabels (hr : r.Reachable) (hb : build r d o = .ok t) (hrows : d.rows.Nodup)
    (hcolumns : d.columns.Nodup) (hbase : ∀ g ∈ d.rows, baseId ∉ g)
    (htotal : ∀ g ∈ d.columns, totalId ∉ g) : HasDistinctLabels d t := by
  obtain ⟨ha, ht⟩ := build_eq_ok_iff.mp hb
  obtain ⟨hrowLabels, hcolumnLabels, -⟩ := tabulate_eq hr.valid ha ht
  have hnodupRows := nodup_paths_of_nodup_pairs (nodup_pairs_rows hr.valid ha ht hrows hbase)
  have hnodupColumns :=
    nodup_paths_of_nodup_pairs (nodup_pairs_columns hr.valid ha ht hcolumns htotal)
  constructor
  case nodup_rows => exact hnodupRows
  case nodup_columns => exact hnodupColumns
  case findRow?_eq =>
    intro k row hk
    have hlength : ∀ l ∈ t.rows, l.path.length = depth (tableRows r d o) := by
      rw [hrowLabels]
      exact fun l hl => length_path_of_mem_labels hl
    exact findLabel?_eq hlength hnodupRows hk
  case findColumn?_eq =>
    intro k column hk
    have hlength : ∀ l ∈ t.columns, l.path.length = depth (tableColumns r d o) := by
      rw [hcolumnLabels]
      exact fun l hl => length_path_of_mem_labels hl
    exact findLabel?_eq hlength hnodupColumns hk
  case depth_row => exact fun row => depth_of_mem_rows hr.valid ha ht
  case depth_column => exact fun column => depth_of_mem_columns hr.valid ha ht
  case columnGroup_eq =>
    intro j
    obtain ⟨before, part, after, hsplit, hpart, hothers⟩ := exists_split_columns hr.valid ha ht j
    exact ⟨before, part, after, hsplit, hpart, hothers, columnGroup_of_split hsplit hpart hothers⟩

/-- The total column is found by its padded path, in front of the column of two variables. -/
theorem build_hasDistinctLabels_bothDesign : ∃ t, sample.Reachable ∧
    build sample bothDesign {} = .ok t ∧ HasDistinctLabels bothDesign t ∧
    t.findColumn? [totalId, "", "", ""] = some 0 ∧
    t.findColumn? ["sex", "f", "pet", "dog"] = some 1 := by
  have hb := build_eq_ok_iff.mpr ⟨accepted_bothDesign, rfl⟩
  have hlabels := build_hasDistinctLabels reachable_sample hb (by decide) (by decide) (by decide)
    (by decide)
  have hcolumns := (tabulate_eq reachable_sample.valid accepted_bothDesign rfl).2.1
  rw [tableColumns_bothDesign] at hcolumns
  refine ⟨_, reachable_sample, hb, hlabels, ?_, ?_⟩
  · exact hlabels.findColumn?_eq 0 (totalLabel 2) (by rw [hcolumns]; rfl)
  · exact hlabels.findColumn?_eq 1 (dataLabel 2 0 ["sex", "pet"] ["f", "dog"]) (by rw [hcolumns]; rfl)

end Tabulation

end SurveyTables
