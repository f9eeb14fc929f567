import SurveyTables.Proofs.Responses.Valid

/-!
# How responses are built

However responses have been built, they are rectangular and indexed, and a column that does not fit is
refused without a trace.

* `toList_of_foldlM_addColumn`: columns added one after the other stand in this order;
* `IsRectangular`, `Valid.isRectangular`: distinct ids that are not empty, and columns of the same length;
* `Grows`, `Valid.grows`: which columns can be added, what comes of it, and that nothing comes of the
  others;
* `IsRecord`, **`ofDocument?_of_isRecord`**: the documents that give columns and perhaps a number of
  respondents, and the responses that they are;
* **`reachable_isRectangular`**: all of this for the responses that can come up.
-/

namespace SurveyTables.Responses

variable {r r' : Responses} {c : Column}

/-! ## Adding columns -/

theorem isEmpty_columns_eq_false_iff : r.columns.isEmpty = false ↔ r.columns.toList ≠ [] := by
  rw [← Bool.not_eq_true, Catalog.isEmpty_iff]

theorem toList_of_foldlM_addColumn {columns : List Column}
    (h : columns.foldlM addColumn r = .ok r') :
    r'.columns.toList = r.columns.toList ++ columns := by
  induction columns generalizing r with
  | nil =>
    obtain rfl : r = r' := Except.ok.inj h
    exact (List.append_nil _).symm
  | cons c columns ih =>
    obtain ⟨r₁, hadd, hrest⟩ := foldlM_addColumn_cons_eq_ok_iff.mp h
    obtain ⟨-, rfl⟩ := addColumn_eq_ok_iff.mp hadd
    rw [ih hrest, Catalog.toList_push, List.append_assoc, List.singleton_append]

theorem toList_of_ofColumns {columns : List Column} (h : ofColumns columns = .ok r) :
    r.columns.toList = columns :=
  toList_of_foldlM_addColumn h

/-- No id is empty, none stands twice and the index knows them all, and every column has an answer of
each respondent. -/
structure IsRectangular (r : Responses) : Prop where
  indexed : r.columns.IsIndexed
  id_ne_empty : ∀ id ∈ r.ids, id ≠ ""
  size_answers : ∀ c ∈ r.columns.toList, c.answers.size = r.respondents

/-- A column can be added just if its id is not empty and new and if it has an answer of each respondent;
the first column may have any length. It comes behind the others, which stay as they are. If it is
refused, the responses stay as they are, with their index and their number of respondents. -/
structure Grows (r : Responses) (c : Column) : Prop where
  ok_iff : (r.extend c).1 = .ok () ↔
    c.id ≠ "" ∧ c.id ∉ r.ids ∧ (r.columns.toList ≠ [] → c.answers.size = r.respondents)
  of_ok : (r.extend c).1 = .ok () →
    (r.extend c).2.columns.toList = r.columns.toList ++ [c] ∧
      (r.extend c).2.respondents = c.answers.size
  of_error : ∀ e, (r.extend c).1 = .error e → (r.extend c).2 = r
  addColumn_eq_ok_iff : ∀ r', r.addColumn c = .ok r' ↔ r.extend c = (.ok (), r')

theorem Valid.isRectangular (hr : r.Valid) : IsRectangular r where
  indexed := hr.index.isIndexed
  id_ne_empty id hid := by
    obtain ⟨c, hc, rfl⟩ := List.mem_map.mp hid
    exact hr.id_ne_empty c hc
  size_answers := hr.size_answers

theorem Valid.exists_addColumn_iff (hr : r.Valid) (c : Column) : (∃ r', r.addColumn c = .ok r') ↔
    c.id ≠ "" ∧ c.id ∉ r.ids ∧ (r.columns.toList ≠ [] → c.answers.size = r.respondents) := by
  simp only [addColumn_eq_ok_iff, exists_and_left, exists_eq, and_true, isEmpty_columns_eq_false_iff]
  rw [← Bool.not_eq_true, contains, hr.index.contains_iff]
  rfl

theorem addColumn_eq_ok_iff_extend (r : Responses) (c : Column) (r' : Responses) :
    r.addColumn c = .ok r' ↔ r.extend c = (.ok (), r') := by
  obtain ⟨r'', h, heq⟩ | ⟨e, h, heq⟩ := extend_cases r c
  · simp [h, heq]
  · simp [h, heq]

theorem Valid.grows (hr : r.Valid) (c : Column) : Grows r c where
  ok_iff := by
    rw [← hr.exists_addColumn_iff]
    simp only [addColumn_eq_ok_iff_extend, Prod.ext_iff, exists_and_left, exists_eq', and_true]
  of_ok h := by
    obtain ⟨r', hadd, heq⟩ | ⟨e, -, heq⟩ := extend_cases r c
    · obtain ⟨-, rfl⟩ := addColumn_eq_ok_iff.mp hadd
      rw [heq]
      exact ⟨Catalog.toList_push _ c, rfl⟩
    · exact absurd (heq ▸ h) nofun
  of_error e h := by
    obtain ⟨r', -, heq⟩ | ⟨e', -, heq⟩ := extend_cases r c
    · exact absurd (heq ▸ h) nofun
    · rw [heq]
  addColumn_eq_ok_iff := addColumn_eq_ok_iff_extend r c

/-! ## Responses of documents -/

/-- The number of respondents may be left out or null. -/
inductive GivesCount : Option Document → Option Nat → Prop where
  | absent : GivesCount none none
  | null : GivesCount (some .null) none
  | whole (n : Nat) : GivesCount (some (.whole n)) (some n)

/-- The document gives the columns and perhaps a number of respondents, in an object that may have other
fields too or in a list of both. -/
inductive IsRecord : Document → List Column → Option Nat → Prop where
  | object {fields : List (String × Document)} {items : List Document} {columns : List Column}
      {count : Option Nat} :
    fields.lookup "columns" = some (.list items) → items.mapM Column.ofDocument? = some columns →
    GivesCount (fields.lookup "respondents") count → IsRecord (.object fields) columns count
  | list {items rest : List Document} {columns : List Column} {count : Option Nat} :
    items.mapM Column.ofDocument? = some columns → rest.length ≤ 1 → GivesCount rest.head? count →
    IsRecord (.list (.list items :: rest)) columns count

variable {d : Document} {columns : List Column} {count : Option Nat}

theorem givesCount_iff {n : Option Document} : GivesCount n count ↔
    Document.orElse? none (Document.optional? Document.natural?) n = some count := by
  constructor
  · intro h
    cases h <;> rfl
  · intro h
    match n, h with
    | none, h =>
      obtain rfl := Option.some.inj h
      exact .absent
    | some .null, h =>
      obtain rfl := Option.some.inj h
      exact .null
    | some (.whole (.ofNat n)), h =>
      obtain rfl := Option.some.inj h
      exact .whole n

theorem exists_of_listOf? {α : Type} {read : Document → Option α} {as : List α}
    (h : d.listOf? read = some as) : ∃ items, d = .list items ∧ items.mapM read = some as := by
  cases d with
  | list items => exact ⟨items, rfl, h⟩
  | _ => exact nomatch h

theorem isRecord_iff : IsRecord d columns count ↔ ∃ items n,
    d.fields? ["columns", "respondents"] = some [some (.list items), n] ∧
      items.mapM Column.ofDocument? = some columns ∧ GivesCount n count := by
  constructor
  · intro h
    cases h with
    | object hfield hcolumns hcount =>
      refine ⟨_, _, ?_, hcolumns, hcount⟩
      rw [← hfield]
      rfl
    | @list items rest _ _ hcolumns hlength hcount =>
      match rest, hlength with
      | [], _ => exact ⟨items, none, rfl, hcolumns, hcount⟩
      | [n], _ => exact ⟨items, some n, rfl, hcolumns, hcount⟩
  · rintro ⟨items, n, hfields, hcolumns, hcount⟩
    match d, hfields with
    | .object fields, hfields =>
      simp only [Document.fields?, List.map_cons, List.map_nil, Option.some_inj, List.cons.injEq,
        and_true] at hfields
      obtain ⟨hfield, rfl⟩ := hfields
      exact .object hfield hcolumns hcount
    | .list [c], hfields =>
      have hfields : some [some c, none] = some [some (.list items), n] := hfields
      simp only [Option.some_inj, List.cons.injEq, and_true] at hfields
      obtain ⟨rfl, rfl⟩ := hfields
      exact .list hcolumns (by simp) hcount
    | .list [c, m], hfields =>
      have hfields : some [some c, some m] = some [some (.list items), n] := hfields
      simp only [Option.some_inj, List.cons.injEq, and_true] at hfields
      obtain ⟨rfl, rfl⟩ := hfields
      exact .list hcolumns (by simp) hcount

theorem exists_isRecord (h : ofDocument? d = some r) : ∃ columns count, IsRecord d columns count := by
  simp only [ofDocument?, bind, Option.bind_eq_some_iff] at h
  obtain ⟨fields, hfields, h⟩ := h
  split at h
  · next c n =>
    simp only [Option.bind_eq_some_iff] at h
    obtain ⟨columns, hcolumns, count, hcount, -⟩ := h
    cases c with
    | none => simp [Document.required?] at hcolumns
    | some c =>
      obtain ⟨items, rfl, hitems⟩ := exists_of_listOf? hcolumns
      exact ⟨columns, count, isRecord_iff.mpr ⟨items, n, hfields, hitems, givesCount_iff.mpr hcount⟩⟩
  · simp at h

theorem withRespondents_eq_some_iff {n : Nat} : r.withRespondents n = some r' ↔
    (r.columns.toList = [] ∧ r' = { r with respondents := n }) ∨
      (r.columns.toList ≠ [] ∧ n = r.respondents ∧ r' = r) := by
  rw [withRespondents]
  cases hempty : r.columns.isEmpty with
  | true =>
    have hnil := Catalog.isEmpty_iff.mp hempty
    simp [hnil, eq_comm]
  | false =>
    have hne := isEmpty_columns_eq_false_iff.mp hempty
    simp [hne, eq_comm]

/-- **The responses of a record** are those of its columns. The number of respondents that it gives is
kept if there are no columns, and else it has to be the right one. -/
theorem IsRecord.ofDocument?_eq_some_iff (h : IsRecord d columns count) :
    ofDocument? d = some r' ↔ ∃ r, ofColumns columns = .ok r ∧
      ((columns = [] ∧ r' = { r with respondents := count.getD r.respondents }) ∨
        (columns ≠ [] ∧ (∀ n, count = some n → n = r.respondents) ∧ r' = r)) := by
  obtain ⟨items, n, hfields, hcolumns, hcount⟩ := isRecord_iff.mp h
  have hcolumns : Document.required? (Document.listOf? Column.ofDocument?) (some (.list items)) =
      some columns := hcolumns
  simp only [ofDocument?, hfields, bind, Option.bind_some, hcolumns, givesCount_iff.mp hcount]
  cases hr : ofColumns columns with
  | error e => simp [Except.toOption]
  | ok r =>
    have hlist := toList_of_ofColumns hr
    simp only [Except.toOption, Option.bind_some, Except.ok.injEq, exists_eq_left']
    cases count with
    | none =>
      simp only [Option.getD_none, reduceCtorEq, false_implies, implies_true, true_and]
      rw [← or_and_right, and_iff_right (Decidable.em _)]
      exact ⟨fun h => (Option.some.inj h).symm, fun h => congrArg some h.symm⟩
    | some n =>
      simp only [withRespondents_eq_some_iff, hlist, Option.getD_some, Option.some_inj, forall_eq']

/-- The document gives responses just if its columns can be added one after the other and are as long as
its number says, if there is one. These are its columns; without columns its number stays. -/
structure Reads (d : Document) (columns : List Column) (count : Option Nat) : Prop where
  exists_iff : (∃ r, ofDocument? d = some r) ↔
    (∃ r, columns.foldlM addColumn {} = .ok r) ∧
      ∀ n, count = some n → ∀ c ∈ columns, c.answers.size = n
  of_some : ∀ r, ofDocument? d = some r →
    r.columns.toList = columns ∧ (columns = [] → r.respondents = count.getD 0)

theorem IsRecord.reads (h : IsRecord d columns count) : Reads d columns count where
  exists_iff := by
    constructor
    · rintro ⟨r', hr'⟩
      obtain ⟨r, hr, ⟨rfl, -⟩ | ⟨-, hcount, -⟩⟩ := h.ofDocument?_eq_some_iff.mp hr'
      · exact ⟨⟨r, hr⟩, by simp⟩
      · refine ⟨⟨r, hr⟩, fun n hn c hc => ?_⟩
        rw [← toList_of_ofColumns hr] at hc
        rw [hcount n hn, (valid_ofColumns hr).size_answers c hc]
    · rintro ⟨⟨r, hr⟩, hsize⟩
      by_cases hnil : columns = []
      · exact ⟨_, h.ofDocument?_eq_some_iff.mpr ⟨r, hr, .inl ⟨hnil, rfl⟩⟩⟩
      · refine ⟨r, h.ofDocument?_eq_some_iff.mpr ⟨r, hr, .inr ⟨hnil, fun n hn => ?_, rfl⟩⟩⟩
        obtain ⟨c, hc⟩ := List.exists_mem_of_ne_nil columns hnil
        have hmem : c ∈ r.columns.toList := toList_of_ofColumns hr ▸ hc
        rw [← hsize n hn c hc, (valid_ofColumns hr).size_answers c hmem]
  of_some r' hr' := by
    obtain ⟨r, hr, ⟨rfl, rfl⟩ | ⟨hne, -, rfl⟩⟩ := h.ofDocument?_eq_some_iff.mp hr'
    · obtain rfl : {} = r := Except.ok.inj hr
      exact ⟨rfl, fun _ => rfl⟩
    · exact ⟨toList_of_ofColumns hr, fun hnil => absurd hnil hne⟩

/-! ## Responses that can come up -/

/-- **Responses are always rectangular and indexed.** A column that does not fit changes nothing, and a
document gives responses just if its columns can be added and have as many answers as it says. -/
theorem reachable_isRectangular :
    (∀ r : Responses, r.Reachable → IsRectangular r ∧ ∀ c, Grows r c) ∧
    (∀ d columns count, IsRecord d columns count → Reads d columns count) ∧
    ∀ d r, ofDocument? d = some r → ∃ columns count, IsRecord d columns count :=
  ⟨fun _ hr => ⟨hr.valid.isRectangular, hr.valid.grows⟩, fun _ _ _ h => h.reads,
    fun _ _ h => exists_isRecord h⟩

/-- The answers of two respondents, of whom one gave none. -/
def petColumn : Column :=
  { id := "pet", answers := #[.text "dog", .missing] }

/-- The column with a number of respondents, and a field that is not known. -/
def petDocument (n : Nat) : Document :=
  .object [("respondents", .whole n), ("year", .whole 2024), ("columns", .list [petColumn.toDocument])]

theorem isRecord_petDocument (n : Nat) : IsRecord (petDocument n) [petColumn] (some n) :=
  .object rfl rfl (.whole n)

/-- With the right number of respondents the document is read, with another one it is refused. A column
of another length leaves what has been read as it is. -/
theorem reachable_isRectangular_pet :
    IsRecord (petDocument 2) [petColumn] (some 2) ∧ IsRecord (petDocument 4) [petColumn] (some 4) ∧
    (∃ r, ofDocument? (petDocument 2) = some r ∧ r.Reachable ∧ r.columns.toList = [petColumn] ∧
      r.respondents = 2 ∧ ∃ e, r.extend { id := "sex", answers := #[.text "f"] } = (.error e, r)) ∧
    ¬ ∃ r, ofDocument? (petDocument 4) = some r := by
  obtain ⟨hrectangular, hreads, -⟩ := reachable_isRectangular
  have hright := hreads _ _ _ (isRecord_petDocument 2)
  have hwrong := hreads _ _ _ (isRecord_petDocument 4)
  have hsize : ∀ n, some 2 = some n → ∀ c ∈ [petColumn], c.answers.size = n := by
    rintro n ⟨⟩ c hc
    rw [List.mem_singleton.mp hc]
    rfl
  have hadds : ∃ r, [petColumn].foldlM addColumn {} = .ok r := by
    obtain ⟨-, hgrows⟩ := hrectangular {} .empty
    have hok := (hgrows petColumn).ok_iff.mpr
      ⟨by decide, List.not_mem_nil, fun hne => absurd rfl hne⟩
    have hr := ((hgrows petColumn).addColumn_eq_ok_iff _).mpr (Prod.ext hok rfl)
    exact ⟨_, foldlM_addColumn_cons_eq_ok_iff.mpr ⟨_, hr, rfl⟩⟩
  obtain ⟨r, hr⟩ := hright.exists_iff.mpr ⟨hadds, hsize⟩
  obtain ⟨hcolumns, -⟩ := hright.of_some r hr
  obtain ⟨hvalid, hgrows⟩ := hrectangular r (.ofDocument hr)
  have hpet : petColumn ∈ r.columns.toList := hcolumns ▸ List.mem_singleton_self petColumn
  have hrespondents : 2 = r.respondents := hvalid.size_answers petColumn hpet
  refine ⟨isRecord_petDocument 2, isRecord_petDocument 4,
    ⟨r, hr, .ofDocument hr, hcolumns, hrespondents.symm, ?_⟩, fun hread => ?_⟩
  · have hgrows := hgrows { id := "sex", answers := #[.text "f"] }
    cases hresult : (r.extend { id := "sex", answers := #[.text "f"] }).1 with
    | error e => exact ⟨e, Prod.ext hresult (hgrows.of_error e hresult)⟩
    | ok _ =>
      obtain ⟨-, -, hlength⟩ := hgrows.ok_iff.mp hresult
      have hone : 1 = r.respondents := hlength (List.ne_nil_of_mem hpet)
      omega
  · have hfour := (hwrong.exists_iff.mp hread).2 4 rfl petColumn (List.mem_singleton_self _)
    exact absurd hfour (by decide)

end SurveyTables.Responses
