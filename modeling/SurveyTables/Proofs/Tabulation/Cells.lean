import SurveyTables.Proofs.Tabulation.Layout

/-!
# The cells of a table

* `Label.pairs`, `Label.ids`, `Label.texts`: what a label says before the filler;
* `exists_class_of_label`: a data label comes from a class, whose group and texts it says;
* **`build_cell`**: the cell of two data labels is the total of the respondents who show the texts of
  both.
-/

namespace SurveyTables

namespace Label

/-- The pairs of the label before the filler. -/
def pairs (l : Label) : Path :=
  l.path.takeWhile (· != filler)

/-- The ids that the label says. -/
def ids (l : Label) : Group :=
  l.pairs.map Prod.fst

/-- The texts that the label says. -/
def texts (l : Label) : List String :=
  l.pairs.map Prod.snd

end Label

namespace Tabulation

open Responses

variable {r : Responses} {d : Design} {o : Options} {t : Table Float}

/-! ## What labels say -/

theorem takeWhile_pad {p : Path} (hp : ∀ pair ∈ p, pair.1 ≠ "") (depth : Nat) :
    (p.pad depth).takeWhile (· != filler) = p :=
  Path.takeWhile_pad (fun h => hp filler h rfl) depth

theorem ne_empty_of_mem_groupPath (hr : r.Valid) {g : Group} (hg : ∀ id ∈ g, r.contains id = true)
    (as : List Answer) : ∀ pair ∈ groupPath g as, pair.1 ≠ "" := by
  intro pair hpair
  have hmem : pair.1 ∈ g := (List.of_mem_zip hpair).1
  exact hr.ne_empty_of_contains (hg _ hmem)

/-- A data label comes from a class, whose group and texts it says. -/
theorem exists_class_of_label (hr : r.Valid) {included : Nat → Bool} {gs : List Group}
    (hgs : ∀ g ∈ gs, ∀ id ∈ g, r.contains id = true) {entry : Line × Path}
    (he : entry ∈ classLines r included gs) (depth : Nat) {i : Nat}
    (hi : (label depth entry).kind = .data i) :
    gs[i]? = some (label depth entry).ids ∧
      ∃ c ∈ (classes r included (label depth entry).ids).sorted,
        entry.1 = .data i c.2 ∧ c.1.answers.map Answer.display = (label depth entry).texts := by
  unfold classLines at he
  rw [List.mem_flatMap] at he
  obtain ⟨⟨g, i'⟩, hg, he⟩ := he
  obtain ⟨c, hc, rfl⟩ := List.mem_map.mp he
  obtain rfl : i' = i := Label.Kind.data.inj hi
  have hg := List.mem_zipIdx_iff_getElem?.mp hg
  have hlength := length_answers_of_mem_sorted hc
  have hpairs : (label depth (.data i' c.2, groupPath g c.1.answers)).pairs =
      groupPath g c.1.answers :=
    takeWhile_pad (ne_empty_of_mem_groupPath hr (hgs g (List.mem_of_getElem? hg)) _) depth
  have hids : (label depth (.data i' c.2, groupPath g c.1.answers)).ids = g := by
    rw [Label.ids, hpairs, groupPath, List.map_fst_zip (by simp [hlength])]
  have htexts : (label depth (.data i' c.2, groupPath g c.1.answers)).texts =
      c.1.answers.map Answer.display := by
    rw [Label.texts, hpairs, groupPath, List.map_snd_zip (by simp [hlength])]
  simp only [hids, htexts]
  exact ⟨hg, c, hc, rfl, rfl⟩

theorem mem_classLines_of_mem_tableRows {entry : Line × Path} {depth i : Nat}
    (he : entry ∈ tableRows r d o) (hi : (label depth entry).kind = .data i) :
    entry ∈ classLines r (r.includes d o) d.rows := by
  rw [tableRows, List.mem_append, List.mem_filter, List.mem_singleton] at he
  rcases he with ⟨he, -⟩ | rfl
  · exact he
  · cases hi

theorem mem_classLines_of_mem_tableColumns {entry : Line × Path} {depth i : Nat}
    (he : entry ∈ tableColumns r d o) (hi : (label depth entry).kind = .data i) :
    entry ∈ classLines r (r.includes d o) d.columns := by
  rw [tableColumns, List.mem_append] at he
  rcases he with he | he
  · cases hc : o.columnTotal with
    | false => simp [hc] at he
    | true =>
      rw [hc, if_pos rfl, List.mem_singleton] at he
      rw [he] at hi
      cases hi
  · exact he

/-! ## The cells of the small table -/

set_option maxRecDepth 100000 in
theorem sorted_sex : (classes sample (sample.includes sampleDesign sampleOptions) ["sex"]).sorted =
    [({ key := "sex::f", answers := [.text "f"] }, 0)] := by
  have h : classAnswers sample (sample.includes sampleDesign sampleOptions) ["sex"] =
      [some [.text "f"], some [.text "f"], none] := rfl
  rw [classes, h]
  cbv

set_option maxRecDepth 100000 in
theorem sorted_pet : (classes sample (sample.includes sampleDesign sampleOptions) ["pet"]).sorted =
    [({ key := "pet::dog", answers := [.text "dog"] }, 0)] := by
  have h : classAnswers sample (sample.includes sampleDesign sampleOptions) ["pet"] =
      [some [.text "dog"], some [.text "dog"], none] := rfl
  rw [classes, h]
  cbv

theorem tableRows_sample : tableRows sample sampleDesign sampleOptions =
    [(.data 0 0, [("sex", "f")]), (.base, [(baseId, Statistic.count.marker)])] := by
  have hmem : ({ key := "sex::f", answers := [.text "f"] }, 0) ∈
      (classes sample (sample.includes sampleDesign sampleOptions) ["sex"]).sorted := by
    rw [sorted_sex]
    exact List.mem_singleton_self _
  have hkept : isKept sample sampleDesign sampleOptions (.data 0 0) = true :=
    (isKept_iff rfl hmem).mpr ⟨0, by decide, rfl, rfl, rfl⟩
  have hlines : classLines sample (sample.includes sampleDesign sampleOptions) sampleDesign.rows =
      [(.data 0 0, [("sex", "f")])] := by
    show List.map _ (classes _ _ ["sex"]).sorted ++ [] = _
    rw [sorted_sex]
    rfl
  rw [tableRows, hlines, List.filter_cons, if_pos hkept]
  rfl

theorem tableColumns_sample : tableColumns sample sampleDesign sampleOptions =
    [(.data 0 0, [("pet", "dog")])] := by
  show List.map _ (classes _ _ ["pet"]).sorted ++ [] = _
  rw [sorted_pet]
  rfl

/-- **The cells of a table** add up the weights of the included respondents who show the texts of both
labels, in order and from 0. Without such respondents they are empty. -/
theorem build_cell (hr : r.Reachable) (hb : build r d o = .ok t) {x y i j : Nat}
    {row column : Label} (hx : t.rows[x]? = some row) (hy : t.columns[y]? = some column)
    (hi : row.kind = .data i) (hj : column.kind = .data j) :
    d.rows[i]? = some row.ids ∧ d.columns[j]? = some column.ids ∧
      t.cells[x]?.bind (·[y]?) =
        some (r.total o (r.counted d o row.ids row.texts column.ids column.texts)) := by
  obtain ⟨haccepted, ht⟩ := build_eq_ok_iff.mp hb
  obtain ⟨hrows, hcolumns, hcells⟩ := tabulate_eq hr.valid haccepted ht
  rw [hrows, labels_eq, List.getElem?_map, Option.map_eq_some_iff] at hx
  rw [hcolumns, labels_eq, List.getElem?_map, Option.map_eq_some_iff] at hy
  obtain ⟨p, hp, rfl⟩ := hx
  obtain ⟨q, hq, rfl⟩ := hy
  have hp' := mem_classLines_of_mem_tableRows (List.mem_of_getElem? hp) hi
  have hq' := mem_classLines_of_mem_tableColumns (List.mem_of_getElem? hq) hj
  obtain ⟨hg, a, ha, hpa, hts⟩ :=
    exists_class_of_label hr.valid (fun g hg => (haccepted.group .rows g hg).2) hp' _ hi
  obtain ⟨hh, b, hb, hqb, hus⟩ :=
    exists_class_of_label hr.valid (fun g hg => (haccepted.group .columns g hg).2) hq' _ hj
  refine ⟨hg, hh, ?_⟩
  rw [hcells, List.getElem?_map, hp, Option.map_some, Option.bind_some, List.getElem?_map, hq,
    Option.map_some, hpa, hqb, getElem?_counts, participants_data hg ha hh hb, hts, hus]

/-- Two respondents said both things. -/
theorem build_cell_sample :
    sampleTable.rows[0]? = some { path := [("sex", "f")], kind := .data 0, statistic := .count } ∧
    sampleTable.columns[0]? =
      some { path := [("pet", "dog")], kind := .data 0, statistic := .count } ∧
    sampleTable.cells[0]?.bind (·[0]?) = some (some 2.0) := by
  obtain ⟨hrows, hcolumns, -⟩ := tabulate_eq reachable_sample.valid accepted_sample rfl
  have hrow : sampleTable.rows[0]? =
      some { path := [("sex", "f")], kind := .data 0, statistic := .count } := by
    show (tabulate sample _ _ _).rows[0]? = _
    rw [hrows, tableRows_sample]
    rfl
  have hcolumn : sampleTable.columns[0]? =
      some { path := [("pet", "dog")], kind := .data 0, statistic := .count } := by
    show (tabulate sample _ _ _).columns[0]? = _
    rw [hcolumns, tableColumns_sample]
    rfl
  obtain ⟨-, -, hcell⟩ := build_cell reachable_sample build_sample hrow hcolumn rfl rfl
  refine ⟨hrow, hcolumn, hcell.trans ?_⟩
  decide

end Tabulation

end SurveyTables
