import SurveyTables.Proofs.Catalog
import SurveyTables.Responses.Document

/-!
# Responses that can come up

However responses are made, they are rectangular: every column has an answer of each respondent, its
id is not empty, and the index knows where it stands.

* `Responses.Reachable`: made of columns, of rows or of a document, with columns added to them;
* `Responses.Valid`: rectangular and indexed;
* `Responses.answer`: what a respondent said about a variable, by a search through the columns;
* `extend_eq`, `addColumn_eq`: what comes of one more column, with the order of the checks;
* **`Reachable.valid`**;
* `Valid.map_answer_columnsOf`: the columns of variables hold the answers to them.
-/

namespace SurveyTables.Responses

/-- The responses that can be made. -/
inductive Reachable : Responses → Prop where
  | empty : Reachable {}
  | ofRows {headers : List String} {rows : List (List Answer)} {r : Responses} :
    ofRows headers rows = .ok r → Reachable r
  | ofDocument {d : Document} {r : Responses} : ofDocument? d = some r → Reachable r
  | extend {r : Responses} (c : Column) : Reachable r → Reachable (r.extend c).2

/-- Every column has its own id and an answer of each respondent, and the index is right. -/
structure Valid (r : Responses) : Prop where
  index : r.columns.Valid
  id_ne_empty : ∀ c ∈ r.columns.toList, c.id ≠ ""
  size_answers : ∀ c ∈ r.columns.toList, c.answers.size = r.respondents

theorem valid_empty (count : Nat) : Valid { respondents := count } where
  index := Catalog.valid_empty
  id_ne_empty := by simp [Catalog.empty, Catalog.toList]
  size_answers := by simp [Catalog.empty, Catalog.toList]

variable {r r' : Responses}

theorem run_get_bind {α : Type} (f : Responses → ExceptT ResponsesError (StateM Responses) α)
    (r : Responses) : (get >>= f).run.run r = (f r).run.run r :=
  rfl

/-- The three checks come before the two changes, so a column that is refused changes nothing. -/
theorem extend_eq (r : Responses) (c : Column) :
    r.extend c =
      if c.id.isEmpty then (.error .emptyId, r)
      else if r.contains c.id then (.error (.duplicate c.id), r)
      else if !r.columns.isEmpty && c.answers.size != r.respondents then
        (.error (.columnLength c.id r.respondents c.answers.size), r)
      else (.ok (), { columns := r.columns.push c, respondents := c.answers.size }) := by
  rw [extend, adding]
  cases c.id.isEmpty with
  | true => rfl
  | false =>
    rw [if_neg Bool.false_ne_true, if_neg Bool.false_ne_true, run_get_bind]
    cases r.contains c.id with
    | true => rfl
    | false =>
      rw [if_neg Bool.false_ne_true, if_neg Bool.false_ne_true, run_get_bind, run_get_bind]
      cases !r.columns.isEmpty && c.answers.size != r.respondents with
      | true => rfl
      | false => rfl

theorem addColumn_eq (r : Responses) (c : Column) :
    r.addColumn c =
      if c.id.isEmpty then .error .emptyId
      else if r.contains c.id then .error (.duplicate c.id)
      else if !r.columns.isEmpty && c.answers.size != r.respondents then
        .error (.columnLength c.id r.respondents c.answers.size)
      else .ok { columns := r.columns.push c, respondents := c.answers.size } := by
  rw [addColumn, extend_eq]
  cases c.id.isEmpty with
  | true => rfl
  | false =>
    cases r.contains c.id with
    | true => rfl
    | false => cases !r.columns.isEmpty && c.answers.size != r.respondents <;> rfl

theorem addColumn_eq_ok_iff {c : Column} : r.addColumn c = .ok r' ↔
    (c.id ≠ "" ∧ r.contains c.id = false ∧
      (r.columns.isEmpty = false → c.answers.size = r.respondents)) ∧
    r' = { columns := r.columns.push c, respondents := c.answers.size } := by
  rw [addColumn_eq]
  split
  · next h => simp_all
  · next h =>
    split
    · next h' => simp_all
    · next h' =>
      split
      · next hsize => simp_all
      · next hsize =>
        have hid : c.id ≠ "" := by simpa using h
        have hlen : r.columns.isEmpty = false → c.answers.size = r.respondents := by
          simpa using hsize
        have hnew : r.contains c.id = false := by simpa using h'
        constructor
        · intro h
          exact ⟨⟨hid, hnew, hlen⟩, (Except.ok.inj h).symm⟩
        · rintro ⟨-, rfl⟩
          rfl

theorem Valid.addColumn (hr : r.Valid) {c : Column} (h : r.addColumn c = .ok r') : r'.Valid := by
  obtain ⟨⟨hid, hnew, hsize⟩, rfl⟩ := addColumn_eq_ok_iff.mp h
  have hmem : ∀ c' ∈ (r.columns.push c).toList, c' ∈ r.columns.toList ∨ c' = c := by
    intro c' hc'
    simpa [Catalog.toList_push] using hc'
  refine ⟨hr.index.push ?_, fun c' hc' => ?_, fun c' hc' => ?_⟩
  · rw [← hr.index.contains_iff]
    simpa [contains] using hnew
  · rcases hmem c' hc' with h' | rfl
    · exact hr.id_ne_empty c' h'
    · exact hid
  · rcases hmem c' hc' with h' | rfl
    · have hne : r.columns.isEmpty = false := by
        rw [← Bool.not_eq_true, Catalog.isEmpty_iff]
        exact List.ne_nil_of_mem h'
      rw [hr.size_answers c' h', hsize hne]
    · rfl

/-- The column comes in and nothing is refused, or the responses stay as they are. -/
theorem extend_cases (r : Responses) (c : Column) :
    (∃ r', r.addColumn c = .ok r' ∧ r.extend c = (.ok (), r')) ∨
      ∃ e, r.addColumn c = .error e ∧ r.extend c = (.error e, r) := by
  rw [addColumn_eq, extend_eq]
  split
  · exact .inr ⟨_, rfl, rfl⟩
  · split
    · exact .inr ⟨_, rfl, rfl⟩
    · split
      · exact .inr ⟨_, rfl, rfl⟩
      · exact .inl ⟨_, rfl, rfl⟩

theorem Valid.extend (hr : r.Valid) (c : Column) : (r.extend c).2.Valid := by
  obtain ⟨r', h, heq⟩ | ⟨e, -, heq⟩ := extend_cases r c
  · rw [heq]
    exact hr.addColumn h
  · rwa [heq]

theorem Reachable.addColumn (hr : r.Reachable) {c : Column} (h : r.addColumn c = .ok r') :
    r'.Reachable := by
  obtain ⟨r'', h', heq⟩ | ⟨e, h', -⟩ := extend_cases r c
  · obtain rfl : r'' = r' := Except.ok.inj (h'.symm.trans h)
    have hleft := Reachable.extend c hr
    rwa [heq] at hleft
  · exact nomatch h'.symm.trans h

theorem foldlM_addColumn_cons_eq_ok_iff {c : Column} {columns : List Column} :
    (c :: columns).foldlM Responses.addColumn r = .ok r' ↔
      ∃ r₁, r.addColumn c = .ok r₁ ∧ columns.foldlM Responses.addColumn r₁ = .ok r' := by
  rw [List.foldlM_cons]
  cases r.addColumn c with
  | error e => simp [bind, Except.bind]
  | ok r₁ => simp [bind, Except.bind]

theorem Valid.foldlM_addColumn (columns : List Column) {r : Responses} (hr : r.Valid)
    (h : columns.foldlM Responses.addColumn r = .ok r') : r'.Valid := by
  induction columns generalizing r with
  | nil =>
    obtain rfl : r = r' := Except.ok.inj h
    exact hr
  | cons c columns ih =>
    obtain ⟨r₁, hadd, hrest⟩ := foldlM_addColumn_cons_eq_ok_iff.mp h
    exact ih (hr.addColumn hadd) hrest

theorem valid_ofColumns {columns : List Column} (h : ofColumns columns = .ok r) : r.Valid :=
  (valid_empty 0).foldlM_addColumn columns h

theorem valid_ofRows {headers : List String} {rows : List (List Answer)}
    (h : ofRows headers rows = .ok r) : r.Valid := by
  rw [ofRows] at h
  cases hw : checkWidths headers.length 0 rows with
  | error e => rw [hw] at h; exact nomatch h
  | ok _ =>
    rw [hw] at h
    exact valid_ofColumns h

theorem Valid.withRespondents (hr : r.Valid) {count : Nat}
    (h : r.withRespondents count = some r') : r'.Valid := by
  rw [Responses.withRespondents] at h
  split at h
  · next hempty =>
    obtain rfl := Option.some.inj h
    have hnil := Catalog.isEmpty_iff.mp hempty
    exact ⟨hr.index, hr.id_ne_empty, by simp [hnil]⟩
  · split at h
    · obtain rfl := Option.some.inj h
      exact hr
    · simp at h

theorem valid_ofDocument {d : Document} (h : ofDocument? d = some r) : r.Valid := by
  simp only [ofDocument?, bind, Option.bind_eq_some_iff] at h
  obtain ⟨fields, -, h⟩ := h
  split at h
  · simp only [Option.bind_eq_some_iff] at h
    obtain ⟨columns, -, respondents, -, responses, hcolumns, h⟩ := h
    have hvalid : responses.Valid := by
      cases hc : ofColumns columns with
      | error e => rw [hc] at hcolumns; exact nomatch hcolumns
      | ok r₁ =>
        rw [hc] at hcolumns
        exact Option.some.inj hcolumns ▸ valid_ofColumns hc
    split at h
    · exact hvalid.withRespondents h
    · exact Option.some.inj h ▸ hvalid
  · simp at h

/-- **All responses that can come up are rectangular.** -/
theorem Reachable.valid (h : r.Reachable) : r.Valid := by
  induction h with
  | empty => exact valid_empty 0
  | ofRows h => exact valid_ofRows h
  | ofDocument h => exact valid_ofDocument h
  | extend c _ ih => exact ih.extend c

/-! ## Answers to variables -/

/-- What a respondent said about the variable; nothing if no column has its id. -/
def answer (r : Responses) (id : String) (respondent : Nat) : Answer :=
  match r.columns.toList.find? (·.id == id) with
  | some c => c.answer respondent
  | none => .missing

namespace Valid

theorem column?_eq (hr : r.Valid) (id : String) :
    r.column? id = r.columns.toList.find? (·.id == id) :=
  hr.index.find?_eq id

theorem isSome_column? (hr : r.Valid) (id : String) :
    (r.column? id).isSome = r.contains id := by
  rw [hr.column?_eq, contains, Bool.eq_iff_iff, hr.index.contains_iff, List.find?_isSome,
    Catalog.keys, List.mem_map]
  simp

theorem exists_column? (hr : r.Valid) {id : String} (h : r.contains id = true) :
    ∃ c, r.column? id = some c := by
  rwa [← hr.isSome_column?, Option.isSome_iff_exists] at h

theorem answer_of_column? (hr : r.Valid) {id : String} {c : Column} (h : r.column? id = some c)
    (respondent : Nat) : r.answer id respondent = c.answer respondent := by
  rw [hr.column?_eq] at h
  rw [answer, h]

theorem answer_of_not_contains (hr : r.Valid) {id : String} (h : r.contains id = false)
    (respondent : Nat) : r.answer id respondent = .missing := by
  rw [← hr.isSome_column?, Option.isSome_eq_false_iff, Option.isNone_iff_eq_none,
    hr.column?_eq] at h
  rw [answer, h]

theorem ne_empty_of_contains (hr : r.Valid) {id : String} (h : r.contains id = true) : id ≠ "" := by
  rw [contains, hr.index.contains_iff, Catalog.keys, List.mem_map] at h
  obtain ⟨c, hc, rfl⟩ := h
  exact hr.id_ne_empty c hc

theorem map_answer_columnsOf (hr : r.Valid) {ids : List String}
    (h : ∀ id ∈ ids, r.contains id = true) (respondent : Nat) :
    (r.columnsOf ids).map (·.answer respondent) = ids.map (r.answer · respondent) := by
  induction ids with
  | nil => rfl
  | cons id ids ih =>
    obtain ⟨c, hc⟩ := hr.exists_column? (h id List.mem_cons_self)
    have ih := ih fun id hid => h id (List.mem_cons_of_mem _ hid)
    rw [columnsOf] at ih ⊢
    rw [List.filterMap_cons_some hc, List.map_cons, List.map_cons, ih,
      hr.answer_of_column? hc]

end Valid

end SurveyTables.Responses
