import SurveyTables.Proofs.Responses.Building
import SurveyTables.Proofs.Responses.Selection

/-!
# Responses of rows

Rows of answers, one for each respondent, are turned into columns, one for each header.

* `addRow`, `Transposes`, **`transposes_foldl_addRow`**: the answers of each row come to the ends of the
  columns, and so the columns hold what the rows say;
* `Transposes.eq`: the rows determine the columns;
* `exists_split_cons_iff`, `foldlM_eq_error_iff`: what is done step by step fails at the first step that does;
* `HeaderFault`, `ofColumns_eq_error_iff`: columns of one length are refused for the first header that is
  empty or has stood before;
* `RowsFault`, `ofRows_eq_error_iff`: rows are refused for the first one of the wrong width, and else for
  their headers;
* `Tabulates`, **`ofRows_transposes`**: when rows make up responses, what these hold, and why they do not.
-/

namespace SurveyTables.Responses

variable {headers : List String} {rows : List (List Answer)} {columns : List Column} {r : Responses}
  {e : ResponsesError}

/-! ## Rows and columns -/

/-- The columns with one more respondent, whose answers the row has. -/
def addRow (columns : List Column) (row : List Answer) : List Column :=
  List.zipWith (fun c a => { c with answers := c.answers.push a }) columns row

/-- The columns of headers, without any respondent. -/
def blankColumns (headers : List String) : List Column :=
  headers.map fun id => { id, answers := #[] }

/-- The rows are as wide as there are headers, there is a column for each header in order, and it has the
answers that the rows have at its place. -/
structure Transposes (headers : List String) (rows : List (List Answer)) (columns : List Column) :
    Prop where
  length_row : ∀ row ∈ rows, row.length = headers.length
  ids_eq : columns.map Column.id = headers
  size_answers : ∀ c ∈ columns, c.answers.size = rows.length
  getElem?_answers : ∀ (i j : Nat) row c, rows[i]? = some row → columns[j]? = some c →
    c.answers[i]? = row[j]?

theorem Transposes.length_eq (h : Transposes headers rows columns) :
    columns.length = headers.length := by
  rw [← h.ids_eq, List.length_map]

theorem transposes_blankColumns (headers : List String) :
    Transposes headers [] (blankColumns headers) where
  length_row := by simp
  ids_eq := by simp [blankColumns, Function.comp_def]
  size_answers := by simp [blankColumns]
  getElem?_answers := by simp

theorem getElem?_addRow_eq_some_iff {row : List Answer} {j : Nat} {c : Column} :
    (addRow columns row)[j]? = some c ↔ ∃ c' a, columns[j]? = some c' ∧ row[j]? = some a ∧
      { c' with answers := c'.answers.push a } = c := by
  rw [addRow, List.getElem?_zipWith_eq_some]

theorem Transposes.addRow (h : Transposes headers rows columns) {row : List Answer}
    (hrow : row.length = headers.length) :
    Transposes headers (rows ++ [row]) (addRow columns row) where
  length_row := by
    intro w hw
    rcases List.mem_append.mp hw with hw | hw
    · exact h.length_row w hw
    · rw [List.mem_singleton.mp hw, hrow]
  ids_eq := by
    have hlength : columns.length = row.length := by rw [h.length_eq, hrow]
    apply List.ext_getElem?
    intro j
    rw [← h.ids_eq, List.getElem?_map, List.getElem?_map, Responses.addRow, List.getElem?_zipWith]
    by_cases hj : j < columns.length
    · have hj' : j < row.length := hlength ▸ hj
      simp [hj, hj']
    · simp [List.getElem?_eq_none (Nat.le_of_not_lt hj)]
  size_answers := by
    intro c hc
    obtain ⟨j, hj⟩ := List.mem_iff_getElem?.mp hc
    obtain ⟨c', a, hc', -, rfl⟩ := getElem?_addRow_eq_some_iff.mp hj
    simp [h.size_answers c' (List.mem_of_getElem? hc')]
  getElem?_answers := by
    intro i j w c hw hc
    obtain ⟨c', a, hc', ha, rfl⟩ := getElem?_addRow_eq_some_iff.mp hc
    have hsize := h.size_answers c' (List.mem_of_getElem? hc')
    rw [Array.getElem?_push, hsize]
    by_cases hi : i = rows.length
    · subst hi
      obtain rfl : row = w := by simpa using hw
      rw [if_pos rfl, ha]
    · have hlt : i < rows.length := by
        have := (List.getElem?_eq_some_iff.mp hw).1
        rw [List.length_append, List.length_singleton] at this
        omega
      rw [List.getElem?_append_left hlt] at hw
      rw [if_neg hi]
      exact h.getElem?_answers i j w c' hw hc'

theorem Transposes.foldl_addRow (h : Transposes headers rows columns) {more : List (List Answer)}
    (hmore : ∀ row ∈ more, row.length = headers.length) :
    Transposes headers (rows ++ more) (more.foldl Responses.addRow columns) := by
  induction more generalizing rows columns with
  | nil => rwa [List.append_nil]
  | cons row more ih =>
    obtain ⟨hrow, hmore⟩ := List.forall_mem_cons.mp hmore
    have := ih (h.addRow hrow) hmore
    rwa [List.append_assoc, List.singleton_append] at this

/-- **Row by row, the columns come to hold what all rows say.** -/
theorem transposes_foldl_addRow (hwidth : ∀ row ∈ rows, row.length = headers.length) :
    Transposes headers rows (rows.foldl addRow (blankColumns headers)) :=
  (transposes_blankColumns headers).foldl_addRow hwidth

theorem transposes_columnsOfRows (hwidth : ∀ row ∈ rows, row.length = headers.length) :
    Transposes headers rows (columnsOfRows headers rows) where
  length_row := hwidth
  ids_eq := by
    apply List.ext_getElem?
    intro j
    rw [columnsOfRows, List.getElem?_map, List.getElem?_mapIdx, Option.map_map]
    exact Option.map_id'
  size_answers := by
    intro c hc
    rw [columnsOfRows, List.mem_mapIdx] at hc
    obtain ⟨i, hi, rfl⟩ := hc
    simp
  getElem?_answers := by
    intro i j row c hrow hc
    rw [columnsOfRows, List.getElem?_mapIdx, Option.map_eq_some_iff] at hc
    obtain ⟨id, hid, rfl⟩ := hc
    have hlt : j < row.length := by
      rw [hwidth row (List.mem_of_getElem? hrow)]
      exact (List.getElem?_eq_some_iff.mp hid).1
    simp [hrow, hlt]

/-- **The rows determine the columns.** -/
theorem Transposes.eq {others : List Column} (h : Transposes headers rows columns)
    (h' : Transposes headers rows others) : columns = others := by
  apply List.ext_getElem (h.length_eq.trans h'.length_eq.symm)
  intro j hj hj'
  have hid : columns[j].id = others[j].id := by
    have hids := congrArg (·[j]?) (h.ids_eq.trans h'.ids_eq.symm)
    simpa [hj, hj'] using hids
  have hanswers : columns[j].answers = others[j].answers := by
    have hsize := h.size_answers _ (List.getElem_mem hj)
    have hsize' := h'.size_answers _ (List.getElem_mem hj')
    apply Array.ext_getElem?
    intro i
    by_cases hi : i < rows.length
    · rw [h.getElem?_answers i j _ _ (List.getElem?_eq_getElem hi) (List.getElem?_eq_getElem hj),
        h'.getElem?_answers i j _ _ (List.getElem?_eq_getElem hi) (List.getElem?_eq_getElem hj')]
    · rw [Array.getElem?_eq_none (by omega), Array.getElem?_eq_none (by omega)]
  cases hc : columns[j]
  cases hc' : others[j]
  simp_all

/-! ## Columns of one length -/

theorem addColumn_eq_error_iff {c : Column} : r.addColumn c = .error e ↔
    (c.id = "" ∧ e = .emptyId) ∨
    (c.id ≠ "" ∧ r.contains c.id = true ∧ e = .duplicate c.id) ∨
    (c.id ≠ "" ∧ r.contains c.id = false ∧ r.columns.isEmpty = false ∧
      c.answers.size ≠ r.respondents ∧ e = .columnLength c.id r.respondents c.answers.size) := by
  rw [addColumn_eq]
  by_cases hid : c.id = ""
  · simp [hid, eq_comm (a := e)]
  · by_cases hcontains : r.contains c.id = true
    · simp [hid, hcontains, eq_comm (a := e)]
    · cases r.columns.isEmpty with
      | true => simp [hid, hcontains]
      | false =>
        by_cases hsize : c.answers.size = r.respondents
        · simp [hid, hcontains, hsize]
        · simp [hid, hcontains, hsize, eq_comm (a := e)]

theorem exists_split_cons_iff {α : Type} {a : α} {as : List α} {p : List α → α → List α → Prop} :
    (∃ before b behind, a :: as = before ++ b :: behind ∧ p before b behind) ↔
      p [] a as ∨ ∃ before b behind, as = before ++ b :: behind ∧ p (a :: before) b behind := by
  constructor
  · rintro ⟨before, b, behind, hsplit, h⟩
    cases before with
    | nil =>
      obtain ⟨rfl, rfl⟩ := List.cons.inj hsplit
      exact .inl h
    | cons c before =>
      obtain ⟨rfl, rfl⟩ := List.cons.inj hsplit
      exact .inr ⟨before, b, behind, rfl, h⟩
  · rintro (h | ⟨before, b, behind, rfl, h⟩)
    · exact ⟨[], a, as, rfl, h⟩
    · exact ⟨a :: before, b, behind, rfl, h⟩

theorem foldlM_eq_error_iff {σ α ε : Type} {f : σ → α → Except ε σ} {as : List α} {s : σ} {e : ε} :
    as.foldlM f s = .error e ↔ ∃ before a behind, as = before ++ a :: behind ∧
      ∃ s', before.foldlM f s = .ok s' ∧ f s' a = .error e := by
  induction as generalizing s with
  | nil => simp [pure, Except.pure]
  | cons a as ih =>
    have hfirst : (∃ s', [].foldlM f s = .ok s' ∧ f s' a = .error e) ↔ f s a = .error e := by
      simp [pure, Except.pure]
    rw [exists_split_cons_iff, hfirst]
    cases ha : f s a with
    | error e' => simp [List.foldlM_cons, ha, bind, Except.bind]
    | ok s₁ => simp [List.foldlM_cons, ha, bind, Except.bind, ih]

/-- The first header that is empty or has stood before, and what it is refused for. -/
inductive HeaderFault (headers : List String) : ResponsesError → Prop where
  | empty {before behind : List String} : headers = before ++ "" :: behind → "" ∉ before →
    before.Nodup → HeaderFault headers .emptyId
  | duplicate {before behind : List String} {id : String} : headers = before ++ id :: behind →
    "" ∉ before → before.Nodup → id ∈ before → HeaderFault headers (.duplicate id)

section OneLength

variable {count : Nat} (hsize : ∀ c ∈ columns, c.answers.size = count)
include hsize

theorem exists_ofColumns_eq_ok_iff : (∃ r, ofColumns columns = .ok r) ↔
    "" ∉ columns.map Column.id ∧ (columns.map Column.id).Nodup := by
  constructor
  · rintro ⟨r, hr⟩
    have hvalid := valid_ofColumns hr
    have hlist := toList_of_ofColumns hr
    refine ⟨fun hmem => ?_, ?_⟩
    · obtain ⟨c, hc, hid⟩ := List.mem_map.mp hmem
      exact hvalid.id_ne_empty c (hlist ▸ hc) hid
    · rw [← hlist]
      exact hvalid.index.nodup
  · rintro ⟨hempty, hnodup⟩
    have hid : ∀ c ∈ columns, c.id ≠ "" := by
      intro c hc h
      exact hempty (h ▸ List.mem_map_of_mem hc)
    obtain ⟨r, hr, -⟩ := exists_responses_of_columns count hsize hid hnodup
    exact ⟨r, hr⟩

/-- **Columns of one length are refused for the first header that is empty or has stood before.** -/
theorem ofColumns_eq_error_iff :
    ofColumns columns = .error e ↔ HeaderFault (columns.map Column.id) e := by
  have hbegins {before behind : List Column} {c : Column} (hsplit : columns = before ++ c :: behind) :
      (∃ r, ofColumns before = .ok r) ↔
        "" ∉ before.map Column.id ∧ (before.map Column.id).Nodup := by
    apply exists_ofColumns_eq_ok_iff
    intro c hc
    exact hsize c (hsplit ▸ List.mem_append_left _ hc)
  rw [ofColumns, foldlM_eq_error_iff]
  constructor
  · rintro ⟨before, c, behind, hsplit, r, hr, he⟩
    obtain ⟨hempty, hnodup⟩ := (hbegins hsplit).mp ⟨r, hr⟩
    have hheaders : columns.map Column.id = before.map Column.id ++ c.id :: behind.map Column.id := by
      rw [hsplit, List.map_append, List.map_cons]
    have hvalid := valid_ofColumns hr
    have hlist := toList_of_ofColumns hr
    rcases addColumn_eq_error_iff.mp he with ⟨hid, rfl⟩ | ⟨-, hcontains, rfl⟩ | ⟨-, -, hne, hlength, -⟩
    · exact .empty (hid ▸ hheaders) hempty hnodup
    · refine .duplicate hheaders hempty hnodup ?_
      rw [contains, hvalid.index.contains_iff, Catalog.keys, hlist] at hcontains
      exact hcontains
    · -- the columns so far have the same length
      obtain ⟨c', hc'⟩ := List.exists_mem_of_ne_nil _ (isEmpty_columns_eq_false_iff.mp hne)
      have hsize' := hvalid.size_answers c' hc'
      rw [hlist] at hc'
      rw [← hsize', hsize c' (hsplit ▸ List.mem_append_left _ hc'),
        hsize c (hsplit ▸ List.mem_append_right _ List.mem_cons_self)] at hlength
      exact absurd rfl hlength
  · intro h
    cases h with
    | empty hheaders hempty hnodup =>
      obtain ⟨before, others, hsplit, rfl, hothers⟩ := List.map_eq_append_iff.mp hheaders
      obtain ⟨c, behind, rfl, hid, -⟩ := List.map_eq_cons_iff.mp hothers
      obtain ⟨r, hr⟩ := (hbegins hsplit).mpr ⟨hempty, hnodup⟩
      exact ⟨before, c, behind, hsplit, r, hr, addColumn_eq_error_iff.mpr (.inl ⟨hid, rfl⟩)⟩
    | duplicate hheaders hempty hnodup hmem =>
      obtain ⟨before, others, hsplit, rfl, hothers⟩ := List.map_eq_append_iff.mp hheaders
      obtain ⟨c, behind, rfl, rfl, -⟩ := List.map_eq_cons_iff.mp hothers
      obtain ⟨r, hr⟩ := (hbegins hsplit).mpr ⟨hempty, hnodup⟩
      have hid : c.id ≠ "" := fun h => hempty (h ▸ hmem)
      have hcontains : r.contains c.id = true := by
        rw [contains, (valid_ofColumns hr).index.contains_iff, Catalog.keys, toList_of_ofColumns hr]
        exact hmem
      exact ⟨before, c, behind, hsplit, r, hr,
        addColumn_eq_error_iff.mpr (.inr (.inl ⟨hid, hcontains, rfl⟩))⟩

end OneLength

/-! ## Rows -/

theorem checkWidths_eq_ok_iff {width start : Nat} :
    checkWidths width start rows = .ok () ↔ ∀ row ∈ rows, row.length = width := by
  induction rows generalizing start with
  | nil => simp [checkWidths]
  | cons row rows ih =>
    rw [checkWidths]
    by_cases hrow : row.length = width <;> simp [hrow, ih]

theorem checkWidths_eq_error_iff {width start : Nat} : checkWidths width start rows = .error e ↔
    ∃ before row behind, rows = before ++ row :: behind ∧ (∀ w ∈ before, w.length = width) ∧
      row.length ≠ width ∧ e = .rowWidth (start + before.length) width row.length := by
  induction rows generalizing start with
  | nil => simp [checkWidths]
  | cons row rows ih =>
    rw [checkWidths]
    rw [exists_split_cons_iff]
    by_cases hrow : row.length = width
    · simp [hrow, ih, Nat.add_assoc, Nat.add_comm 1]
    · simp [hrow, eq_comm (a := e)]

theorem ofRows_eq_of_transposes (h : Transposes headers rows columns) :
    ofRows headers rows = ofColumns columns := by
  rw [ofRows, checkWidths_eq_ok_iff.mpr h.length_row,
    (transposes_columnsOfRows h.length_row).eq h]
  rfl

/-- The first row of the wrong width, or else the first header that is empty or has stood before, and what
the rows are refused for. -/
inductive RowsFault (headers : List String) (rows : List (List Answer)) : ResponsesError → Prop where
  | width {before behind : List (List Answer)} {row : List Answer} :
    rows = before ++ row :: behind → (∀ w ∈ before, w.length = headers.length) →
    row.length ≠ headers.length →
    RowsFault headers rows (.rowWidth before.length headers.length row.length)
  | header {e : ResponsesError} : (∀ row ∈ rows, row.length = headers.length) →
    HeaderFault headers e → RowsFault headers rows e

/-- **What rows are refused for.** -/
theorem ofRows_eq_error_iff : ofRows headers rows = .error e ↔ RowsFault headers rows e := by
  by_cases hwidth : ∀ row ∈ rows, row.length = headers.length
  · have h := transposes_columnsOfRows hwidth
    rw [ofRows_eq_of_transposes h, ofColumns_eq_error_iff h.size_answers, h.ids_eq]
    constructor
    · exact .header hwidth
    · intro hfault
      cases hfault with
      | width hsplit hbefore hrow =>
        exact absurd (hwidth _ (hsplit ▸ List.mem_append_right _ List.mem_cons_self)) hrow
      | header _ hheaders => exact hheaders
  · obtain ⟨e', he'⟩ : ∃ e', checkWidths headers.length 0 rows = .error e' := by
      cases hcheck : checkWidths headers.length 0 rows with
      | error e' => exact ⟨e', rfl⟩
      | ok _ => exact absurd (checkWidths_eq_ok_iff.mp hcheck) hwidth
    have herror : ofRows headers rows = .error e ↔ checkWidths headers.length 0 rows = .error e := by
      rw [ofRows, he']
      exact ⟨fun h => congrArg Except.error (Except.error.inj h),
        fun h => congrArg Except.error (Except.error.inj h)⟩
    rw [herror, checkWidths_eq_error_iff]
    constructor
    · rintro ⟨before, row, behind, hsplit, hbefore, hrow, rfl⟩
      rw [Nat.zero_add]
      exact .width hsplit hbefore hrow
    · intro hfault
      cases hfault with
      | width hsplit hbefore hrow => exact ⟨_, _, _, hsplit, hbefore, hrow, by rw [Nat.zero_add]⟩
      | header hall _ => exact absurd hall hwidth

/-- The responses have a column for each header, in order, and a respondent for each row, whose answer in a
column is the one that the row has at the place of the header. -/
structure Tabulates (headers : List String) (rows : List (List Answer)) (r : Responses) : Prop where
  ids_eq : r.ids = headers
  respondents_eq : r.respondents = rows.length
  column : ∀ (j : Nat) id, headers[j]? = some id → ∃ c, r.column? id = some c ∧
    c.answers.size = rows.length ∧
    ∀ (i : Nat) row, rows[i]? = some row → ∃ a, row[j]? = some a ∧ c.answers[i]? = some a

theorem Transposes.tabulates (h : Transposes headers rows columns) (hheaders : headers ≠ [])
    (hr : ofColumns columns = .ok r) : Tabulates headers rows r := by
  have hvalid := valid_ofColumns hr
  have hlist := toList_of_ofColumns hr
  have hids : r.ids = headers := by rw [← h.ids_eq, ← hlist]; rfl
  refine ⟨hids, ?_, fun j id hj => ?_⟩
  · have hne : columns ≠ [] := by
      rintro rfl
      exact hheaders h.ids_eq.symm
    obtain ⟨c, hc⟩ := List.exists_mem_of_ne_nil columns hne
    rw [← hvalid.size_answers c (hlist ▸ hc), h.size_answers c hc]
  · have hlt : j < columns.length := h.length_eq ▸ (List.getElem?_eq_some_iff.mp hj).1
    have hc := List.getElem?_eq_getElem hlt
    have hid : columns[j].id = id := by
      rw [← h.ids_eq, List.getElem?_map, hc] at hj
      exact Option.some.inj hj
    refine ⟨columns[j], ?_, h.size_answers _ (List.getElem_mem hlt), fun i row hrow => ?_⟩
    · have hplace : r.ids[j]? = some id := hids.symm ▸ hj
      have hposition : r.columns.position? id = some j := (hvalid.index id j).mpr hplace
      have hentry : r.columns.toList[j]? = some columns[j] := (congrArg (·[j]?) hlist).trans hc
      rw [column?, Catalog.find?, hposition, Option.bind_some, ← Array.getElem?_toList]
      exact hentry
    · have hj' : j < row.length := by
        rw [h.length_row row (List.mem_of_getElem? hrow)]
        exact (List.getElem?_eq_some_iff.mp hj).1
      refine ⟨row[j], List.getElem?_eq_getElem hj', ?_⟩
      rw [h.getElem?_answers i j row _ hrow hc, List.getElem?_eq_getElem hj']

/-- **Responses of rows** have a column for each header and a respondent for each row. Otherwise the first
row of the wrong width is named, or else the first header that is refused. -/
theorem ofRows_transposes (hheaders : headers ≠ []) (rows : List (List Answer)) :
    ((∃ r, ofRows headers rows = .ok r) ↔
      (∀ row ∈ rows, row.length = headers.length) ∧ "" ∉ headers ∧ headers.Nodup) ∧
    (∀ r, ofRows headers rows = .ok r → Tabulates headers rows r) ∧
    (∀ e, ofRows headers rows = .error e ↔ RowsFault headers rows e) ∧
    ((∀ row ∈ rows, row.length = headers.length) →
      (∀ columns, Transposes headers rows columns ↔
        columns = rows.foldl addRow (blankColumns headers)) ∧
      ofRows headers rows = (rows.foldl addRow (blankColumns headers)).foldlM addColumn {}) := by
  have hwidth : ∀ r, ofRows headers rows = .ok r → ∀ row ∈ rows, row.length = headers.length := by
    intro r hr
    cases hcheck : checkWidths headers.length 0 rows with
    | error e =>
      have herror : ofRows headers rows = .error e := by
        rw [ofRows, hcheck]
        rfl
      cases herror.symm.trans hr
    | ok _ => exact checkWidths_eq_ok_iff.mp hcheck
  have hok (hall : ∀ row ∈ rows, row.length = headers.length) :
      (∃ r, ofRows headers rows = .ok r) ↔ "" ∉ headers ∧ headers.Nodup := by
    have h := transposes_foldl_addRow hall
    rw [ofRows_eq_of_transposes h, exists_ofColumns_eq_ok_iff h.size_answers, h.ids_eq]
  refine ⟨⟨?_, ?_⟩, fun r hr => ?_, fun e => ofRows_eq_error_iff, fun hall => ⟨fun columns => ?_, ?_⟩⟩
  · rintro ⟨r, hr⟩
    exact ⟨hwidth r hr, (hok (hwidth r hr)).mp ⟨r, hr⟩⟩
  · rintro ⟨hall, hids⟩
    exact (hok hall).mpr hids
  · have h := transposes_foldl_addRow (hwidth r hr)
    rw [ofRows_eq_of_transposes h] at hr
    exact h.tabulates hheaders hr
  · constructor
    · intro h
      exact h.eq (transposes_foldl_addRow hall)
    · rintro rfl
      exact transposes_foldl_addRow hall
  · exact ofRows_eq_of_transposes (transposes_foldl_addRow hall)

/-- Two respondents, of whom one left a question out. -/
def petRows : List (List Answer) :=
  [[.text "f", .text "dog"], [.missing, .text "cat"]]

/-- The rows of two respondents are read column by column, and no rows at all make up responses too. A
header that stands twice is refused, and before it a row that is too short. -/
theorem ofRows_transposes_pet : ["sex", "pet"] ≠ [] ∧ ["sex", "pet", "sex"] ≠ [] ∧
    (∃ r c, ofRows ["sex", "pet"] petRows = .ok r ∧ r.ids = ["sex", "pet"] ∧ r.respondents = 2 ∧
      r.column? "pet" = some c ∧ c.answers[1]? = some (.text "cat")) ∧
    (∃ r, ofRows ["sex", "pet"] [] = .ok r ∧ r.respondents = 0) ∧
    ofRows ["sex", "pet", "sex"] [] = .error (.duplicate "sex") ∧
    ofRows ["sex", "pet", "sex"] petRows = .error (.rowWidth 0 3 2) := by
  have hpair : ["sex", "pet"] ≠ [] := List.cons_ne_nil _ _
  have htwice : ["sex", "pet", "sex"] ≠ [] := List.cons_ne_nil _ _
  obtain ⟨hpet, htabulates, -⟩ := ofRows_transposes hpair petRows
  obtain ⟨hblank, hnobody, -⟩ := ofRows_transposes hpair []
  obtain ⟨-, -, hheader, -⟩ := ofRows_transposes htwice []
  obtain ⟨-, -, hwidth, -⟩ := ofRows_transposes htwice petRows
  obtain ⟨r, hr⟩ := hpet.mpr (by decide)
  obtain ⟨r', hr'⟩ := hblank.mpr (by decide)
  obtain ⟨c, hc, -, hanswers⟩ := (htabulates r hr).column 1 "pet" rfl
  obtain ⟨a, ha, hcat⟩ := hanswers 1 _ rfl
  obtain rfl := Option.some.inj ha
  refine ⟨hpair, htwice, ⟨r, c, hr, (htabulates r hr).ids_eq, (htabulates r hr).respondents_eq, hc, hcat⟩,
    ⟨r', hr', (hnobody r' hr').respondents_eq⟩, ?_, ?_⟩
  · have hsplit : ["sex", "pet", "sex"] = ["sex", "pet"] ++ "sex" :: [] := rfl
    exact (hheader _).mpr (.header (by simp) (.duplicate hsplit (by decide) (by decide) (by decide)))
  · have hsplit : petRows = [] ++ [.text "f", .text "dog"] :: [[.missing, .text "cat"]] := rfl
    exact (hwidth _).mpr (.width hsplit (by simp) (by decide))

end SurveyTables.Responses
