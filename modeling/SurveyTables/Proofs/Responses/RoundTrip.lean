import SurveyTables.Proofs.Responses.Building
import SurveyTables.Proofs.Responses.Selection
import SurveyTables.Tabulation.Build

/-!
# Responses written and read again

A document has no infinite number and no NaN. Responses without these are read again as they were
written, and no other responses are read again at all.

* `Answer.isFinite`, `Column.isFinite`, `Responses.isFinite`: nothing but finite numbers;
* `mapM_map_eq_ite`: a list is read again if all its members are;
* `Answer.ofDocument?_toDocument`, `Column.ofDocument?_toDocument`;
* `Valid.ofColumns_eq_ok`: responses are those of their own columns;
* **`Reachable.roundTrips`**.
-/

namespace SurveyTables

/-- The answer is no infinite number and no NaN. -/
def Answer.isFinite : Answer → Bool
  | .number x => Number.isFinite x
  | _ => true

/-- All numbers of the column are finite. -/
def Column.isFinite (c : Column) : Bool :=
  c.answers.toList.all Answer.isFinite

/-- All numbers of the responses are finite. -/
def Responses.isFinite (r : Responses) : Bool :=
  r.columns.toList.all Column.isFinite

/-- A list is read again as it was written if each of its members is, and else not at all. -/
theorem mapM_map_eq_ite {α β : Type} {write : α → β} {read : β → Option α} {p : α → Bool}
    (h : ∀ a, read (write a) = if p a then some a else none) (as : List α) :
    (as.map write).mapM read = if as.all p then some as else none := by
  induction as with
  | nil => rfl
  | cons a as ih =>
    rw [List.map_cons, List.mapM_cons, h, ih, List.all_cons]
    cases p a <;> cases as.all p <;> rfl

theorem Answer.ofDocument?_toDocument (a : Answer) :
    Answer.ofDocument? a.toDocument = if a.isFinite then some a else none := by
  cases a with
  | missing => rfl
  | text s => rfl
  | boolean b => rfl
  | number x =>
    rw [toDocument, Document.ofFloat, isFinite]
    cases Number.isFinite x <;> rfl

theorem Column.ofDocument?_toDocument (c : Column) :
    Column.ofDocument? c.toDocument = if c.isFinite then some c else none := by
  have hanswers : Document.required? (Document.listOf? Answer.ofDocument?)
      (some (.list (c.answers.toList.map Answer.toDocument))) =
      if c.isFinite then some c.answers.toList else none :=
    mapM_map_eq_ite Answer.ofDocument?_toDocument c.answers.toList
  have hfields : c.toDocument.fields? ["id", "values"] =
      some [some (.text c.id), some (.list (c.answers.toList.map Answer.toDocument))] := rfl
  simp only [ofDocument?, hfields, bind, Option.bind_some, hanswers]
  cases c.isFinite <;> rfl

namespace Responses

variable {r r' : Responses}

theorem Valid.ofColumns_eq_ok (hr : r.Valid) : ∃ r', ofColumns r.columns.toList = .ok r' ∧
    r'.columns = r.columns ∧ (r.columns.toList ≠ [] → r' = r) := by
  obtain ⟨r', hok, hreachable, hlist⟩ :=
    exists_responses_of_columns r.respondents hr.size_answers hr.id_ne_empty hr.index.nodup
  have hcolumns : r'.columns = r.columns :=
    (hreachable.valid.index.eq_iff hr.index).mpr hlist
  refine ⟨r', hok, hcolumns, fun hne => ?_⟩
  obtain ⟨c, hc⟩ := List.exists_mem_of_ne_nil _ hne
  have hrespondents : r'.respondents = r.respondents := by
    rw [← hr.size_answers c hc, hreachable.valid.size_answers c (hlist ▸ hc)]
  cases r'
  cases r
  simp_all

theorem isRecord_toDocument (h : r.isFinite = true) :
    IsRecord r.toDocument r.columns.toList (some r.respondents) := by
  refine .object rfl ?_ (.whole r.respondents)
  rw [mapM_map_eq_ite Column.ofDocument?_toDocument]
  exact if_pos h

/-- **Responses are read again as they were written if their numbers are finite, and else not.** -/
theorem Valid.ofDocument?_toDocument (hr : r.Valid) :
    ofDocument? r.toDocument = if r.isFinite then some r else none := by
  by_cases hfinite : r.isFinite = true
  · rw [if_pos hfinite, (isRecord_toDocument hfinite).ofDocument?_eq_some_iff]
    obtain ⟨r', hok, hcolumns, heq⟩ := hr.ofColumns_eq_ok
    refine ⟨r', hok, ?_⟩
    by_cases hnil : r.columns.toList = []
    · exact .inl ⟨hnil, by rw [hcolumns]; rfl⟩
    · obtain rfl := heq hnil
      exact .inr ⟨hnil, fun n hn => (Option.some.inj hn).symm, rfl⟩
  · rw [if_neg hfinite, Option.eq_none_iff_forall_ne_some]
    intro r' hr'
    obtain ⟨columns, count, hrecord⟩ := exists_isRecord hr'
    obtain ⟨items, n, hfields, hcolumns, -⟩ := isRecord_iff.mp hrecord
    have hfields : some [some (.list (r.columns.toList.map Column.toDocument)),
        some (.whole r.respondents)] = some [some (.list items), n] := hfields
    simp only [Option.some_inj, List.cons.injEq, Document.list.injEq] at hfields
    obtain ⟨rfl, -⟩ := hfields
    rw [mapM_map_eq_ite Column.ofDocument?_toDocument] at hcolumns
    exact absurd (Option.ite_none_right_eq_some.mp hcolumns).1 hfinite

/-- The document of the responses is read again just if all numbers among the answers are finite. What
is read has the same columns in the same order with the same answers, and the same number of respondents,
and gives the same tables. -/
structure RoundTrips (r : Responses) : Prop where
  exists_iff : (∃ r', ofDocument? r.toDocument = some r') ↔
    ∀ c ∈ r.columns.toList, ∀ x, .number x ∈ c.answers.toList → Number.isFinite x = true
  columns_eq : ∀ r', ofDocument? r.toDocument = some r' → r'.columns.toList = r.columns.toList
  respondents_eq : ∀ r', ofDocument? r.toDocument = some r' → r'.respondents = r.respondents
  build_eq : ∀ r', ofDocument? r.toDocument = some r' → ∀ d o, build r' d o = build r d o

theorem isFinite_iff : r.isFinite = true ↔
    ∀ c ∈ r.columns.toList, ∀ x, .number x ∈ c.answers.toList → Number.isFinite x = true := by
  simp only [isFinite, Column.isFinite, List.all_eq_true]
  refine forall₂_congr fun c _ => ⟨fun h x hx => h _ hx, fun h a ha => ?_⟩
  cases a with
  | number x => exact h x ha
  | _ => rfl

/-- **Responses written and read again** are the same, just if no number among the answers is infinite or
NaN. So every request gives the same table or is refused in the same way. -/
theorem Reachable.roundTrips (hr : r.Reachable) : RoundTrips r := by
  have hread := hr.valid.ofDocument?_toDocument
  have heq : ∀ r', ofDocument? r.toDocument = some r' → r = r' := by
    intro r' hr'
    rw [hread, Option.ite_none_right_eq_some] at hr'
    exact Option.some.inj hr'.2
  refine ⟨?_, fun r' hr' => ?_, fun r' hr' => ?_, fun r' hr' d o => ?_⟩
  · rw [hread, ← isFinite_iff]
    simp
  all_goals rw [heq r' hr']

/-- One respondent's answer. -/
def single (a : Answer) : Responses where
  columns := Catalog.empty.push { id := "q", answers := #[a] }
  respondents := 1

theorem reachable_single (a : Answer) : (single a).Reachable :=
  .addColumn .empty (addColumn_eq_ok_iff.mpr
    ⟨⟨by simp, by simp [contains, Catalog.contains, Catalog.empty],
      fun h => absurd h (by decide)⟩, rfl⟩)

theorem toList_single (a : Answer) :
    (single a).columns.toList = [{ id := "q", answers := #[a] }] :=
  rfl

/-- The negative zero is read again, an infinite number is not. -/
theorem Reachable.roundTrips_single : (single (.number (-0.0))).Reachable ∧
    (∃ r', ofDocument? (single (.number (-0.0))).toDocument = some r' ∧
      r'.columns.toList = [{ id := "q", answers := #[.number (-0.0)] }] ∧ r'.respondents = 1) ∧
    (single (.number (1.0 / 0.0))).Reachable ∧
    ¬ ∃ r', ofDocument? (single (.number (1.0 / 0.0))).toDocument = some r' := by
  have hzero := (reachable_single (.number (-0.0))).roundTrips
  have hinfinite := (reachable_single (.number (1.0 / 0.0))).roundTrips
  refine ⟨reachable_single _, ?_, reachable_single _, ?_⟩
  · obtain ⟨r', hr'⟩ := hzero.exists_iff.mpr (by
      intro c hc x hx
      rw [toList_single, List.mem_singleton] at hc
      subst hc
      obtain rfl := Answer.number.inj (List.mem_singleton.mp hx)
      decide)
    exact ⟨r', hr', hzero.columns_eq r' hr', hzero.respondents_eq r' hr'⟩
  · rw [hinfinite.exists_iff]
    intro hall
    have hfinite := hall _ (toList_single _ ▸ List.mem_cons_self) (1.0 / 0.0) (List.mem_singleton_self _)
    exact absurd hfinite (by decide)

end Responses

end SurveyTables
