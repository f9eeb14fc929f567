import SurveyTables.Proofs.Tabulation.ShownFiller

/-!
# The depth of labels

The labels of an axis are as long as the longest group that somebody answered in full, which need not
be the longest group of the design.

* `exists_length_eq_depth`: some path of an axis is as long as all are made;
* `Responses.reaches`, `Responses.answeredRows`, `Responses.answeredColumns`: the groups with a row or
  a column;
* `IsLongest`, `HasDepth`: labels as long as the longest of groups;
* `hasDepth_labels`, `hasDepth_rows`, `hasDepth_columns`: the labels of an axis, and of a table;
* `HasDepth.forall_isLongest_iff`: when this is the longest group of the design;
* **`build_depth`**.
-/

namespace SurveyTables

/-! ## Groups that are answered -/

namespace Responses

/-- An included respondent who counts has answered all variables of the group. -/
def reaches (r : Responses) (included counting : Nat → Bool) (g : Group) : Bool :=
  (List.range r.respondents).any fun k => included k && (counting k && r.answersAll g k)

/-- The row groups with a row: somebody included has answered all their variables who is counted in
some column. -/
def answeredRows (r : Responses) (d : Design) (o : Options) : List Group :=
  d.rows.filter (r.reaches (r.includes d o) (r.inColumns d o))

/-- The column groups with a column: somebody included has answered all their variables. -/
def answeredColumns (r : Responses) (d : Design) (o : Options) : List Group :=
  d.columns.filter (r.reaches (r.includes d o) fun _ => true)

theorem reaches_iff {r : Responses} {included counting : Nat → Bool} {g : Group} :
    r.reaches included counting g = true ↔ ∃ k < r.respondents, included k = true ∧
      counting k = true ∧ r.answersAll g k = true := by
  simp only [reaches, List.any_eq_true, List.mem_range, Bool.and_eq_true]

end Responses

namespace Tabulation

open Responses

variable {r : Responses} {d : Design} {o : Options} {t : Table Float}

theorem exists_mem_classTexts_iff {included counting : Nat → Bool} {g : Group} :
    (∃ ts, ts ∈ classTexts r included counting g) ↔ r.reaches included counting g = true := by
  have hlists := lists_classTexts r included counting g
  rw [reaches_iff]
  constructor
  · rintro ⟨ts, hts⟩
    obtain ⟨k, hk, hincluded, hcounting, hshows⟩ := (hlists.mem_iff ts).mp hts
    exact ⟨k, hk, hincluded, hcounting, (shows_iff.mp hshows).1⟩
  · rintro ⟨k, hk, hincluded, hcounting, hall⟩
    exact ⟨r.texts g k, (hlists.mem_iff _).mpr
      ⟨k, hk, hincluded, hcounting, shows_iff.mpr ⟨hall, rfl⟩⟩⟩

theorem exists_ids_dataLabels_iff {gs : List Group} (hgs : ∀ g ∈ gs, ∀ id ∈ g, id ≠ "")
    {included counting : Nat → Bool} {depth : Nat} {g : Group} :
    (∃ l ∈ dataLabels depth gs (classTexts r included counting), l.ids = g) ↔
      g ∈ gs.filter (r.reaches included counting) := by
  rw [List.mem_filter, ← exists_mem_classTexts_iff]
  constructor
  · rintro ⟨l, hl, rfl⟩
    obtain ⟨i, g, hi, ts, hts, rfl⟩ := mem_dataLabels.mp hl
    have hg := List.mem_of_getElem? hi
    rw [ids_dataLabel (hgs g hg) (length_of_mem_classTexts hts)]
    exact ⟨hg, ts, hts⟩
  · rintro ⟨hg, ts, hts⟩
    obtain ⟨i, hi⟩ := List.mem_iff_getElem?.mp hg
    exact ⟨dataLabel depth i g ts, mem_dataLabels.mpr ⟨i, g, hi, ts, hts, rfl⟩,
      ids_dataLabel (hgs g hg) (length_of_mem_classTexts hts) depth i⟩

/-! ## The longest path of an axis -/

theorem exists_length_eq_depth {entries : List (Line × Path)} (h : entries ≠ []) :
    ∃ entry ∈ entries, entry.2.length = depth entries := by
  obtain ⟨p, hp, hlength⟩ := exists_length_eq_longest (mt List.map_eq_nil_iff.mp h)
  obtain ⟨entry, hentry, rfl⟩ := List.mem_map.mp hp
  exact ⟨entry, hentry, hlength⟩

/-! ## Labels as long as groups -/

/-- The greatest length of the groups. -/
structure IsLongest (gs : List Group) (n : Nat) : Prop where
  exists_eq : ∃ g ∈ gs, g.length = n
  length_le : ∀ g ∈ gs, g.length ≤ n

theorem IsLongest.unique {gs : List Group} {m n : Nat} (hm : IsLongest gs m) (hn : IsLongest gs n) :
    m = n := by
  obtain ⟨g, hg, rfl⟩ := hm.exists_eq
  obtain ⟨h, hh, rfl⟩ := hn.exists_eq
  exact Nat.le_antisymm (hn.length_le g hg) (hm.length_le h hh)

/-- There are labels for just the groups, and all are brought to the length of the longest group by
filler at the end. -/
structure HasDepth (labels : List Label) (gs : List Group) : Prop where
  ids_mem : ∀ l ∈ labels, l.ids ∈ gs
  exists_ids : ∀ g ∈ gs, ∃ l ∈ labels, l.ids = g
  isPadded : ∀ l ∈ labels, ∃ n, l.IsPadded n
  isLongest : ∀ l ∈ labels, IsLongest gs l.path.length

theorem pairs_label {entry : Line × Path} (h : ∀ pair ∈ entry.2, pair.1 ≠ "") (depth : Nat) :
    (label depth entry).pairs = entry.2 :=
  takeWhile_pad h depth

/-- **The labels of an axis are as long as the longest group among them.** -/
theorem hasDepth_labels {entries : List (Line × Path)}
    (hids : ∀ entry ∈ entries, ∀ pair ∈ entry.2, pair.1 ≠ "") {gs : List Group}
    (hgs : ∀ g, g ∈ gs ↔ ∃ l ∈ labels entries, l.ids = g) : HasDepth (labels entries) gs where
  ids_mem l hl := (hgs l.ids).mpr ⟨l, hl, rfl⟩
  exists_ids g hg := (hgs g).mp hg
  isPadded l hl := by
    rw [labels_eq, List.mem_map] at hl
    obtain ⟨entry, hentry, rfl⟩ := hl
    exact isPadded_of_path_eq (hids entry hentry) rfl
  isLongest l hl := by
    rw [length_path_of_mem_labels hl]
    have hlabel : ∀ entry ∈ entries, label (depth entries) entry ∈ labels entries := by
      intro entry hentry
      rw [labels_eq]
      exact List.mem_map_of_mem hentry
    have hlength : ∀ entry ∈ entries, (label (depth entries) entry).ids.length = entry.2.length := by
      intro entry hentry
      rw [Label.ids, pairs_label (hids entry hentry), List.length_map]
    have hne : entries ≠ [] := by
      rintro rfl
      exact absurd hl List.not_mem_nil
    constructor
    · obtain ⟨entry, hentry, hdepth⟩ := exists_length_eq_depth hne
      refine ⟨_, (hgs _).mpr ⟨_, hlabel entry hentry, rfl⟩, ?_⟩
      rw [hlength entry hentry, hdepth]
    · intro g hg
      obtain ⟨l', hl', rfl⟩ := (hgs g).mp hg
      rw [labels_eq, List.mem_map] at hl'
      obtain ⟨entry, hentry, rfl⟩ := hl'
      rw [hlength entry hentry]
      exact length_le_longest (List.mem_map_of_mem hentry)

/-- The labels, if there are any, are as long as the longest group of a design just if one of the groups
among them is as long. Their groups are of the design or markers. -/
theorem HasDepth.forall_isLongest_iff {labels : List Label} {gs ds : List Group}
    (h : HasDepth labels gs) (hds : ∀ g ∈ ds, g ≠ []) (hgs : ∀ g ∈ gs, g ∈ ds ∨ g.length = 1) :
    (∀ l ∈ labels, IsLongest ds l.path.length) ↔
      labels = [] ∨ ∃ g ∈ gs, IsLongest ds g.length := by
  constructor
  · intro hall
    by_cases hnil : labels = []
    · exact .inl hnil
    · right
      obtain ⟨l, hl⟩ := List.exists_mem_of_ne_nil labels hnil
      obtain ⟨g, hg, hlength⟩ := (h.isLongest l hl).exists_eq
      exact ⟨g, hg, hlength ▸ hall l hl⟩
  · rintro (rfl | ⟨g, hg, hlongest⟩) l hl
    · exact nomatch hl
    · suffices hsame : l.path.length = g.length by rwa [hsame]
      have hle := (h.isLongest l hl).length_le g hg
      obtain ⟨g', hg', hlength⟩ := (h.isLongest l hl).exists_eq
      obtain ⟨g'', hg'', hlongest'⟩ := hlongest.exists_eq
      have hpos := List.length_pos_iff.mpr (hds g'' hg'')
      rcases hgs g' hg' with hmem | hone
      · have hge := hlongest.length_le g' hmem
        omega
      · omega

/-! ## The labels of a table -/

theorem ids_ne_empty_of_mem_classLines {included : Nat → Bool} {gs : List Group}
    (hgs : ∀ g ∈ gs, ∀ id ∈ g, id ≠ "") {entry : Line × Path}
    (h : entry ∈ classLines r included gs) : ∀ pair ∈ entry.2, pair.1 ≠ "" := by
  obtain ⟨⟨g, i⟩, hg, hentry⟩ := List.mem_flatMap.mp h
  obtain ⟨c, -, rfl⟩ := List.mem_map.mp hentry
  intro pair hpair
  exact hgs g (List.mem_of_getElem? (List.mem_zipIdx_iff_getElem?.mp hg)) pair.1
    (List.of_mem_zip hpair).1

theorem hasDepth_rows (hr : r.Valid) (ha : Accepted r d o)
    (ht : t = tabulate r d o (weights r d o)) : HasDepth t.rows ([baseId] :: r.answeredRows d o) := by
  have hgs : ∀ g ∈ d.rows, ∀ id ∈ g, id ≠ "" :=
    ids_ne_empty hr ha .rows
  have hrows := (tabulate_eq hr ha ht).1
  rw [hrows]
  refine hasDepth_labels (fun entry hentry => ?_) fun g => ?_
  · rw [tableRows, List.mem_append, List.mem_singleton] at hentry
    rcases hentry with hentry | rfl
    · exact ids_ne_empty_of_mem_classLines hgs (List.mem_filter.mp hentry).1
    · simp [baseId]
  · rw [← hrows, rows_eq hr ha ht, answeredRows, List.mem_cons, ← exists_ids_dataLabels_iff hgs,
      or_comm]
    simp only [List.mem_append, or_and_right, exists_or, List.mem_singleton, exists_eq_left]
    rw [Label.ids, pairs_baseLabel, eq_comm (a := g)]
    rfl

theorem hasDepth_columns (hr : r.Valid) (ha : Accepted r d o)
    (ht : t = tabulate r d o (weights r d o)) :
    HasDepth t.columns
      ((if o.columnTotal then [[totalId]] else []) ++ r.answeredColumns d o) := by
  have hgs : ∀ g ∈ d.columns, ∀ id ∈ g, id ≠ "" :=
    ids_ne_empty hr ha .columns
  have hcolumns := (tabulate_eq hr ha ht).2.1
  rw [hcolumns]
  refine hasDepth_labels (fun entry hentry => ?_) fun g => ?_
  · rw [tableColumns, List.mem_append] at hentry
    rcases hentry with hentry | hentry
    · cases ho : o.columnTotal <;> simp_all [totalId]
    · exact ids_ne_empty_of_mem_classLines hgs hentry
  · rw [← hcolumns, columns_eq hr ha ht, answeredColumns, List.mem_append,
      ← exists_ids_dataLabels_iff hgs]
    simp only [List.mem_append, or_and_right, exists_or]
    refine or_congr ?_ Iff.rfl
    cases o.columnTotal with
    | false => simp
    | true => simp [Label.ids, pairs_totalLabel, eq_comm]

/-- **The depth of labels.** All labels of an axis are as long as the longest of the groups that have a row
or a column, the markers counted with them. -/
theorem build_depth (hr : r.Reachable) (hb : build r d o = .ok t) :
    HasDepth t.rows ([baseId] :: r.answeredRows d o) ∧
    HasDepth t.columns ((if o.columnTotal then [[totalId]] else []) ++ r.answeredColumns d o) ∧
    ((∀ l ∈ t.rows, IsLongest d.rows l.path.length) ↔
      ∃ g ∈ [baseId] :: r.answeredRows d o, IsLongest d.rows g.length) ∧
    ((∀ l ∈ t.columns, IsLongest d.columns l.path.length) ↔ t.columns = [] ∨
      ∃ g ∈ (if o.columnTotal then [[totalId]] else []) ++ r.answeredColumns d o,
        IsLongest d.columns g.length) := by
  obtain ⟨ha, ht⟩ := build_eq_ok_iff.mp hb
  have hrows := hasDepth_rows hr.valid ha ht
  have hcolumns := hasDepth_columns hr.valid ha ht
  refine ⟨hrows, hcolumns, ?_, ?_⟩
  · have hne : t.rows ≠ [] := by
      obtain ⟨l, hl, -⟩ := hrows.exists_ids [baseId] List.mem_cons_self
      exact List.ne_nil_of_mem hl
    refine (hrows.forall_isLongest_iff (fun g hg => (ha.group .rows g hg).1) fun g hg => ?_).trans
      (or_iff_right hne)
    rcases List.mem_cons.mp hg with rfl | hg
    · exact .inr rfl
    · exact .inl (List.mem_filter.mp hg).1
  · refine hcolumns.forall_isLongest_iff (fun g hg => (ha.group .columns g hg).1) fun g hg => ?_
    rcases List.mem_append.mp hg with hg | hg
    · split at hg
      · exact .inr (congrArg List.length (List.mem_singleton.mp hg))
      · exact nomatch hg
    · exact .inl (List.mem_filter.mp hg).1

/-- The total column has filler, since somebody answered both variables. -/
theorem build_depth_bothDesign : ∃ t, sample.Reachable ∧ build sample bothDesign {} = .ok t ∧
    HasDepth t.rows [[baseId], ["pet"]] ∧ HasDepth t.columns [[totalId], ["sex", "pet"]] := by
  have hb := build_eq_ok_iff.mpr ⟨accepted_bothDesign, rfl⟩
  obtain ⟨hrows, hcolumns, -⟩ := build_depth reachable_sample hb
  exact ⟨_, reachable_sample, hb, hrows, hcolumns⟩

/-- One respondent who did not answer the second question. -/
def unanswered : Responses where
  columns := (Catalog.empty.push { id := "sex", answers := #[.text "f"] }).push
    { id := "pet", answers := #[.missing] }
  respondents := 1

/-- One variable, and both together, on either axis. -/
def deeperDesign : Design where
  rows := [["sex"], ["sex", "pet"]]
  columns := [["sex"], ["sex", "pet"]]

set_option maxRecDepth 100000 in
theorem reachable_unanswered : unanswered.Reachable := by
  have h : ofRows ["sex", "pet"] [[.text "f", .missing]] = .ok unanswered := by
    cbv
  exact .ofRows h

set_option maxRecDepth 100000 in
theorem accepted_unanswered : Accepted unanswered deeperDesign sampleOptions :=
  requestFaults_eq_nil_iff.mp (by cbv)

/-- Nobody answered the longest groups, so the labels of both axes are shorter than these. -/
theorem not_isLongest_unanswered : ∃ t, unanswered.Reachable ∧
    build unanswered deeperDesign sampleOptions = .ok t ∧
    (∃ l ∈ t.rows, l.path.length = 1 ∧ ¬ IsLongest deeperDesign.rows l.path.length) ∧
    ∃ l ∈ t.columns, l.path.length = 1 ∧ ¬ IsLongest deeperDesign.columns l.path.length := by
  have ha := accepted_unanswered
  have hvalid := reachable_unanswered.valid
  have hrows := hasDepth_rows hvalid ha rfl
  have hcolumns := hasDepth_columns hvalid ha rfl
  rw [show unanswered.answeredRows deeperDesign sampleOptions = [["sex"]] by decide] at hrows
  rw [show unanswered.answeredColumns deeperDesign sampleOptions = [["sex"]] by decide] at hcolumns
  have hdeeper : ¬ IsLongest [["sex"], ["sex", "pet"]] 1 :=
    fun h => absurd (h.length_le ["sex", "pet"] (by simp)) (by decide)
  refine ⟨_, reachable_unanswered, build_eq_ok_iff.mpr ⟨ha, rfl⟩, ?_, ?_⟩
  · obtain ⟨l, hl, -⟩ := hrows.exists_ids ["sex"] (by simp)
    have hlength := (hrows.isLongest l hl).unique (n := 1) ⟨⟨["sex"], by simp⟩, by simp⟩
    exact ⟨l, hl, hlength, hlength ▸ hdeeper⟩
  · obtain ⟨l, hl, -⟩ := hcolumns.exists_ids ["sex"] (by simp)
    have hlength := (hcolumns.isLongest l hl).unique (n := 1) ⟨⟨["sex"], by simp⟩, by simp [sampleOptions]⟩
    exact ⟨l, hl, hlength, hlength ▸ hdeeper⟩

end Tabulation

end SurveyTables
