import SurveyTables.Proofs.Questionnaire.Lookup
import SurveyTables.Proofs.Tabulation.ByLabels

/-!
# Filler as a reader sees it

The labels of an axis are brought to the same length by filler, and are then shown with the labels of
a questionnaire.

* `length_shownPath`, `shownPath_append`: two texts are shown for each pair of a path;
* `IsPadded`, `isPadded_of_mem_rows`, `isPadded_of_mem_columns`: only filler in a table has no id;
* `Table.ShowsFillerAs`: a questionnaire shows the filler of a table as a pair, and where there is filler
  as no other (`Questionnaire.ShowsFillerAs.eq_shownPair`);
* **`build_showsFillerAs`**: with the variables of records it is shown as it is, with their questions as
  far as these have ids.
-/

namespace SurveyTables

/-! ## Shown paths -/

namespace Questionnaire

variable (q : Questionnaire)

theorem length_shownPath (p : Path) : (q.shownPath p).length = 2 * p.length := by
  have htexts : ∀ pair ∈ p.map q.shownPair, [pair.1, pair.2].length = 2 := fun _ _ => rfl
  rw [shownPath, Path.flat, List.length_flatMap, List.map_congr_left htexts, List.map_const',
    List.sum_replicate, List.length_map, smul_eq_mul, Nat.mul_comm]

theorem shownPath_append (p p' : Path) :
    q.shownPath (p ++ p') = q.shownPath p ++ q.shownPath p' := by
  rw [shownPath, List.map_append, Path.flat, List.flatMap_append]
  rfl

theorem shownPath_replicate (n : Nat) (pair : Pair) :
    q.shownPath (List.replicate n pair) = Path.flat (List.replicate n (q.shownPair pair)) := by
  rw [shownPath, List.map_replicate]

end Questionnaire

/-! ## Filler in tables -/

/-- The label has pairs with ids, and behind them so many pairs of filler. -/
structure Label.IsPadded (l : Label) (n : Nat) : Prop where
  id_ne_empty : ∀ pair ∈ l.pairs, pair.1 ≠ ""
  path_eq : l.path = l.pairs ++ List.replicate n filler

/-- The texts are two for each pair of the label, and those for its filler are those of the pair. -/
structure Questionnaire.ShowsFillerAs (q : Questionnaire) (shown : Pair) (l : Label)
    (texts : List String) : Prop where
  length_eq : texts.length = 2 * l.path.length
  exists_eq : ∃ n, l.IsPadded n ∧
    texts = q.shownPath l.pairs ++ Path.flat (List.replicate n shown)

/-- All rows and columns of the table are shown in order, and the filler in their labels as the pair. -/
structure Table.ShowsFillerAs {α : Type} (t : Table α) (q : Questionnaire) (shown : Pair) : Prop where
  rows : List.Forall₂ (q.ShowsFillerAs shown) t.rows (t.shownRows q)
  columns : List.Forall₂ (q.ShowsFillerAs shown) t.columns (t.shownColumns q)

theorem Questionnaire.showsFillerAs_shownPath (q : Questionnaire) {l : Label} {n : Nat}
    (h : l.IsPadded n) : q.ShowsFillerAs (q.shownPair filler) l (q.shownPath l.path) where
  length_eq := q.length_shownPath l.path
  exists_eq := ⟨n, h, by rw [h.path_eq, q.shownPath_append, q.shownPath_replicate]⟩

theorem Questionnaire.ShowsFillerAs.eq_shownPair {q : Questionnaire} {shown : Pair} {l : Label}
    (h : q.ShowsFillerAs shown l (q.shownPath l.path)) (hfiller : filler ∈ l.path) :
    shown = q.shownPair filler := by
  obtain ⟨n, hn, htexts⟩ := h.exists_eq
  rw [hn.path_eq] at hfiller htexts
  rw [q.shownPath_append, q.shownPath_replicate, List.append_cancel_left_eq] at htexts
  cases n with
  | zero =>
    rw [List.replicate_zero, List.append_nil] at hfiller
    exact absurd rfl (hn.id_ne_empty filler hfiller)
  | succ n =>
    obtain ⟨hid, htexts⟩ := List.cons.inj htexts
    exact Prod.ext hid.symm (List.cons.inj htexts).1.symm

namespace Tabulation

variable {r : Responses} {d : Design} {o : Options} {t : Table Float}

theorem isPadded_of_path_eq {l : Label} {p : Path} {depth : Nat} (hp : ∀ pair ∈ p, pair.1 ≠ "")
    (h : l.path = p.pad depth) : ∃ n, l.IsPadded n := by
  have hpairs : l.pairs = p := by
    rw [Label.pairs, h]
    exact takeWhile_pad hp depth
  exact ⟨depth - p.length, by rwa [hpairs], by rw [hpairs, h, Path.pad]⟩

theorem isPadded_of_mem_dataLabels {gs : List Group} (hgs : ∀ g ∈ gs, ∀ id ∈ g, id ≠ "")
    {texts : Group → List (List String)} {depth : Nat} {l : Label} (hl : l ∈ dataLabels depth gs texts) :
    ∃ n, l.IsPadded n := by
  obtain ⟨i, g, hi, ts, -, rfl⟩ := mem_dataLabels.mp hl
  have hg := hgs g (List.mem_of_getElem? hi)
  exact isPadded_of_path_eq (fun pair hpair => hg pair.1 (List.of_mem_zip hpair).1) rfl

theorem isPadded_of_mem_rows (hr : r.Valid) (ha : Accepted r d o)
    (ht : t = tabulate r d o (weights r d o)) : ∀ l ∈ t.rows, ∃ n, l.IsPadded n := by
  intro l hl
  rw [rows_eq hr ha ht, List.mem_append, List.mem_singleton] at hl
  rcases hl with hl | rfl
  · exact isPadded_of_mem_dataLabels
      (ids_ne_empty hr ha .rows) hl
  · exact isPadded_of_path_eq (by simp [baseId]) rfl

theorem isPadded_of_mem_columns (hr : r.Valid) (ha : Accepted r d o)
    (ht : t = tabulate r d o (weights r d o)) : ∀ l ∈ t.columns, ∃ n, l.IsPadded n := by
  intro l hl
  rw [columns_eq hr ha ht, List.mem_append] at hl
  rcases hl with hl | hl
  · split at hl
    · rw [List.mem_singleton.mp hl]
      exact isPadded_of_path_eq (by simp [totalId]) rfl
    · exact absurd hl List.not_mem_nil
  · exact isPadded_of_mem_dataLabels
      (ids_ne_empty hr ha .columns) hl

theorem showsFillerAs_shownPair (hr : r.Valid) (hb : build r d o = .ok t) (q : Questionnaire) :
    t.ShowsFillerAs q (q.shownPair filler) := by
  obtain ⟨ha, ht⟩ := build_eq_ok_iff.mp hb
  have hshown : ∀ ls : List Label, (∀ l ∈ ls, ∃ n, l.IsPadded n) →
      List.Forall₂ (q.ShowsFillerAs (q.shownPair filler)) ls (ls.map fun l => q.shownPath l.path) := by
    intro ls hls
    rw [List.forall₂_map_right_iff, List.forall₂_same]
    intro l hl
    obtain ⟨n, hn⟩ := hls l hl
    exact q.showsFillerAs_shownPath hn
  exact ⟨hshown t.rows (isPadded_of_mem_rows hr ha ht),
    hshown t.columns (isPadded_of_mem_columns hr ha ht)⟩

/-- **Filler as a reader sees it.** By the questions it is shown with the labels of the variables whose ids
begin with the separator, the exceptions aside. -/
theorem build_showsFillerAs {records : List Document} {q : Questionnaire}
    (hq : Questionnaire.ofRecords records = .ok q) (exceptions : List String) (hr : r.Reachable)
    (hb : build r d o = .ok t) :
    t.ShowsFillerAs q filler ∧
    t.ShowsFillerAs (q.gathered exceptions) (Questionnaire.shownFiller (q.unnamed exceptions)) ∧
    ((∀ id ∈ q.ids, id ∈ exceptions ∨ ¬ "_".toList <+: id.toList) →
      t.ShowsFillerAs (q.gathered exceptions) filler) := by
  obtain ⟨hids, hflat, hseparator⟩ := Questionnaire.hasIds_of_records hq
  have hvalid := (Questionnaire.Reachable.ofRecords hq).valid
  have hsplits : q.separator ≠ "" := by
    rw [hseparator]
    decide
  have hplain := showsFillerAs_shownPair hr.valid hb q
  rw [Questionnaire.shownPair_filler hvalid.index hids] at hplain
  have hgathered := showsFillerAs_shownPair hr.valid hb (q.gathered exceptions)
  rw [Questionnaire.shownPair_filler_gathered hvalid hids hflat hsplits] at hgathered
  refine ⟨hplain, hgathered, fun hnobody => ?_⟩
  have hnone : q.unnamed exceptions = [] := by
    rw [Questionnaire.unnamed, List.filter_eq_nil_iff, hseparator]
    intro v hv
    rw [decide_eq_true_iff, not_and]
    exact (hnobody v.id (List.mem_map_of_mem hv)).elim absurd fun hnot _ => hnot
  rwa [hnone] at hgathered

/-- A variable whose id begins with the separator. -/
def otherRecord : Document :=
  .object [("id", .text "_x"), ("label", .text "Other")]

/-- A variable whose question has no id. -/
def otherVariable : Variable where
  id := "_x"
  label := "Other"

theorem ofRecords_otherRecord :
    Questionnaire.ofRecords [otherRecord] = .ok (.ofList [otherVariable]) := rfl

theorem toList_otherVariable : (Questionnaire.ofList [otherVariable]).toList = [otherVariable] :=
  Questionnaire.toList_ofList (List.nodup_singleton otherVariable.id)

theorem unnamed_otherVariable :
    (Questionnaire.ofList [otherVariable]).unnamed [] = [otherVariable] := by
  rw [Questionnaire.unnamed, toList_otherVariable]
  exact List.filter_cons_of_pos (by decide)

theorem shownFiller_otherVariable : Questionnaire.shownFiller [otherVariable] = ("Other", "") := by
  cbv

/-- A variable against both together, so that the total column has filler. -/
def bothDesign : Design where
  rows := [["pet"]]
  columns := [["sex", "pet"]]

theorem accepted_bothDesign : Accepted sample bothDesign {} :=
  accepted_of_sampleIds (by decide) (by decide) (by intro axis; cases axis <;> decide) rfl

set_option maxRecDepth 100000 in
theorem tableColumns_bothDesign : tableColumns sample bothDesign {} =
    [(.total, [(totalId, "")]), (.data 0 0, [("sex", "f"), ("pet", "dog")])] := by
  have hanswers : classAnswers sample (sample.includes bothDesign {}) ["sex", "pet"] =
      [some [.text "f", .text "dog"], some [.text "f", .text "dog"], none] := rfl
  have hsorted : (GroupKeys.ofAnswers ["sex", "pet"]
      [some [.text "f", .text "dog"], some [.text "f", .text "dog"], none]).sorted =
      [({ key := "sex::f__pet::dog", answers := [.text "f", .text "dog"] }, 0)] := by
    cbv
  have hclasses : classLines sample (sample.includes bothDesign {}) bothDesign.columns =
      [(.data 0 0, [("sex", "f"), ("pet", "dog")])] := by
    show (classes sample _ ["sex", "pet"]).sorted.map _ ++ [] = _
    rw [classes, hanswers, hsorted]
    rfl
  rw [tableColumns, hclasses]
  rfl

/-- The questions show the filler of the total column with a label, unless the id is an exception. -/
theorem build_showsFillerAs_bothDesign : ∃ q t, Questionnaire.ofRecords [otherRecord] = .ok q ∧
    sample.Reachable ∧ build sample bothDesign {} = .ok t ∧ t.ShowsFillerAs q filler ∧
    t.ShowsFillerAs (q.gathered []) ("Other", "") ∧ t.ShowsFillerAs (q.gathered ["_x"]) filler := by
  have hb := build_eq_ok_iff.mpr ⟨accepted_bothDesign, rfl⟩
  obtain ⟨hplain, hgathered, -⟩ := build_showsFillerAs ofRecords_otherRecord [] reachable_sample hb
  obtain ⟨-, -, hexception⟩ := build_showsFillerAs ofRecords_otherRecord ["_x"] reachable_sample hb
  rw [unnamed_otherVariable, shownFiller_otherVariable] at hgathered
  have hids : (Questionnaire.ofList [otherVariable]).ids = ["_x"] :=
    congrArg (List.map Variable.id) toList_otherVariable
  refine ⟨_, _, ofRecords_otherRecord, reachable_sample, hb, hplain, hgathered,
    hexception fun id hid => ?_⟩
  rw [hids] at hid
  exact .inl hid

/-- By the questions the total column of the table has a label that belongs to nothing. -/
theorem not_showsFillerAs_filler : ∃ q t, Questionnaire.ofRecords [otherRecord] = .ok q ∧
    sample.Reachable ∧ build sample bothDesign {} = .ok t ∧
    (∃ l ∈ t.columns, l.path = [(totalId, ""), filler] ∧
      (q.gathered []).shownPath l.path = [totalId, "", "Other", ""]) ∧
    ¬ t.ShowsFillerAs (q.gathered []) filler := by
  obtain ⟨hids, hflat, hseparator⟩ := Questionnaire.hasIds_of_records ofRecords_otherRecord
  have hvalid := (Questionnaire.Reachable.ofRecords ofRecords_otherRecord).valid
  have hfiller := Questionnaire.shownPair_filler_gathered hvalid hids hflat
    (by rw [hseparator]; decide) []
  rw [unnamed_otherVariable, shownFiller_otherVariable] at hfiller
  have hb := build_eq_ok_iff.mpr ⟨accepted_bothDesign, rfl⟩
  obtain ⟨ha, ht⟩ := build_eq_ok_iff.mp hb
  have hmem : totalLabel 2 ∈ (tabulate sample bothDesign {} (weights sample bothDesign {})).columns := by
    rw [columns_eq reachable_sample.valid ha ht, tableColumns_bothDesign]
    exact List.mem_append_left _ List.mem_cons_self
  have hpath : (totalLabel 2).path = [(totalId, ""), filler] := rfl
  have hshown : ((Questionnaire.ofList [otherVariable]).gathered []).shownPath (totalLabel 2).path =
      [totalId, "", "Other", ""] := by
    have hmarker : ((Questionnaire.ofList [otherVariable]).gathered []).shownPair (totalId, "") =
      (totalId, "") := if_pos (.inr rfl)
    rw [hpath, Questionnaire.shownPath, List.map_cons, List.map_singleton, hmarker, hfiller]
    rfl
  refine ⟨_, _, ofRecords_otherRecord, reachable_sample, hb, ⟨_, hmem, hpath, hshown⟩, fun h => ?_⟩
  have hcolumns := h.columns
  rw [Table.shownColumns, List.forall₂_map_right_iff, List.forall₂_same] at hcolumns
  have hsame := (hcolumns _ hmem).eq_shownPair (by rw [hpath]; simp)
  rw [hfiller] at hsame
  exact absurd hsame (by decide)

end Tabulation

end SurveyTables
