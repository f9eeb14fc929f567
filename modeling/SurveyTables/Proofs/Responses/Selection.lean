import SurveyTables.Proofs.Responses.Valid

/-!
# Some of the respondents and columns

Respondents and columns can be taken out of responses. Those who stay are counted anew.

* `Column.keep`, `Responses.kept`: the columns that stay, with the answers of those who stay;
* `exists_responses_of_columns`: columns of the same length with distinct ids make up responses;
* `Responses.staying`, `Selects`: the responses hold what those who stay said about some variables;
* **`Valid.selects_kept`**: the responses of the columns that stay do.
-/

namespace SurveyTables

/-- The column with the answers of the respondents who stay. -/
def Column.keep (c : Column) (stays : Nat → Bool) : Column :=
  { c with answers := (((List.range c.answers.size).filter stays).map c.answer).toArray }

namespace Responses

/-- The columns that stay, with the answers of the respondents who stay. -/
def kept (r : Responses) (columnStays : String → Bool) (stays : Nat → Bool) : List Column :=
  (r.columns.toList.filter fun c => columnStays c.id).map (·.keep stays)

/-- The respondents who stay. -/
def staying (r : Responses) (stays : Nat → Bool) : List Nat :=
  (List.range r.respondents).filter stays

variable {r r' : Responses}

/-! ## Responses of given columns -/

theorem foldlM_addColumn_eq_ok {count : Nat} (columns : List Column) {r : Responses}
    (hr : r.Reachable) (hcount : r.columns.isEmpty = false → r.respondents = count)
    (hsize : ∀ c ∈ columns, c.answers.size = count) (hid : ∀ c ∈ columns, c.id ≠ "")
    (hnodup : (r.columns.keys ++ columns.map Column.id).Nodup) :
    ∃ r', columns.foldlM Responses.addColumn r = .ok r' ∧ r'.Reachable ∧
      r'.columns.toList = r.columns.toList ++ columns := by
  induction columns generalizing r with
  | nil => exact ⟨r, rfl, hr, (List.append_nil _).symm⟩
  | cons c columns ih =>
    have hc : c.answers.size = count := hsize c List.mem_cons_self
    have hnew : r.contains c.id = false := by
      rw [List.map_cons, List.nodup_append] at hnodup
      rw [← Bool.not_eq_true, contains, hr.valid.index.contains_iff]
      exact fun hmem => hnodup.2.2 _ hmem _ List.mem_cons_self rfl
    have hadd : r.addColumn c = .ok { columns := r.columns.push c, respondents := c.answers.size } :=
      addColumn_eq_ok_iff.mpr
        ⟨⟨hid c List.mem_cons_self, hnew, fun hne => by rw [hc, hcount hne]⟩, rfl⟩
    rw [List.map_cons, List.append_cons] at hnodup
    obtain ⟨r', hok, hreachable, hcolumns⟩ := ih (.addColumn hr hadd) (fun _ => hc)
      (fun c' hc' => hsize c' (List.mem_cons_of_mem _ hc'))
      (fun c' hc' => hid c' (List.mem_cons_of_mem _ hc'))
      (by rwa [Catalog.keys_push])
    refine ⟨r', foldlM_addColumn_cons_eq_ok_iff.mpr ⟨_, hadd, hok⟩, hreachable, ?_⟩
    rw [hcolumns, Catalog.toList_push, List.append_assoc, List.singleton_append]

/-- **Columns of the same length with distinct ids make up responses.** -/
theorem exists_responses_of_columns (count : Nat) {columns : List Column}
    (hsize : ∀ c ∈ columns, c.answers.size = count) (hid : ∀ c ∈ columns, c.id ≠ "")
    (hnodup : (columns.map Column.id).Nodup) :
    ∃ r', ofColumns columns = .ok r' ∧ r'.Reachable ∧ r'.columns.toList = columns :=
  foldlM_addColumn_eq_ok columns .empty (fun h => absurd h (by decide)) hsize hid hnodup

theorem Valid.exists_responses_of_kept (hr : r.Valid) (columnStays : String → Bool)
    (stays : Nat → Bool) : ∃ r', ofColumns (r.kept columnStays stays) = .ok r' ∧ r'.Reachable ∧
      r'.columns.toList = r.kept columnStays stays := by
  apply exists_responses_of_columns (r.staying stays).length
  · intro c hc
    obtain ⟨c, hmem, rfl⟩ := List.mem_map.mp hc
    rw [Column.keep, List.size_toArray, List.length_map,
      hr.size_answers c (List.mem_filter.mp hmem).1, staying]
  · intro c hc
    obtain ⟨c, hmem, rfl⟩ := List.mem_map.mp hc
    exact hr.id_ne_empty c (List.mem_filter.mp hmem).1
  · have hsub : ((r.columns.toList.filter fun c => columnStays c.id).map Column.id).Sublist
        r.columns.keys := List.filter_sublist.map _
    rw [kept, List.map_map]
    exact hr.index.nodup.sublist hsub

/-! ## Lists of respondents -/

theorem map_range_length {α : Type} {ks : List Nat} {f f' : Nat → α}
    (h : ∀ k k', ks[k']? = some k → f' k' = f k) : (List.range ks.length).map f' = ks.map f := by
  apply List.ext_getElem?
  intro k'
  rw [List.getElem?_map, List.getElem?_map]
  by_cases hk : k' < ks.length
  · rw [List.getElem?_range hk, List.getElem?_eq_getElem hk, Option.map_some, Option.map_some,
      h _ k' (List.getElem?_eq_getElem hk)]
  · rw [List.getElem?_eq_none (by simpa using hk), List.getElem?_eq_none (by simpa using hk)]
    rfl

theorem map_filter_eq_filterMap {α β : Type} (f : α → β) (p : α → Bool) (as : List α) :
    (as.filter p).map f = as.filterMap fun a => if p a then some (f a) else none := by
  rw [← List.filterMap_eq_map, List.filterMap_filter]
  rfl

/-! ## Answers of those who stay -/

/-- The responses `r'` hold what the respondents of `r` who stay said about the variables. -/
structure Selects (r r' : Responses) (stays : Nat → Bool) (ids : List String) : Prop where
  respondents : r'.respondents = (r.staying stays).length
  contains : ∀ id ∈ ids, r'.contains id = r.contains id
  answer : ∀ id ∈ ids, ∀ k k', (r.staying stays)[k']? = some k → r'.answer id k' = r.answer id k

theorem find?_kept {columnStays : String → Bool} {id : String} (hid : columnStays id = true)
    (r : Responses) (stays : Nat → Bool) :
    (r.kept columnStays stays).find? (·.id == id) =
      (r.columns.toList.find? (·.id == id)).map (·.keep stays) := by
  rw [kept, List.find?_map, List.find?_filter]
  congr 2
  funext c
  by_cases hc : c.id = id
  · simp [Column.keep, hc, hid]
  · simp [Column.keep, hc]

theorem answer_keep {c : Column} {stays : Nat → Bool} {k k' : Nat}
    (h : ((List.range c.answers.size).filter stays)[k']? = some k) :
    (c.keep stays).answer k' = c.answer k := by
  rw [Column.answer, Column.keep, List.getElem?_toArray, List.getElem?_map, h]
  rfl

/-- **The responses of the columns that stay hold the answers of those who stay** about every variable
whose column stays, if there is one. -/
theorem Valid.selects_kept (hr : r.Valid) (hr' : r'.Valid) {columnStays : String → Bool}
    {stays : Nat → Bool} (h : r'.columns.toList = r.kept columnStays stays) {ids : List String}
    (hids : ∀ id ∈ ids, columnStays id = true) (hsome : ∃ id ∈ ids, r.contains id = true) :
    Selects r r' stays ids := by
  have hfind : ∀ id ∈ ids, r'.columns.toList.find? (·.id == id) =
      (r.columns.toList.find? (·.id == id)).map (·.keep stays) := by
    intro id hid
    rw [h, find?_kept (hids id hid)]
  refine ⟨?_, fun id hid => ?_, fun id hid k k' hk => ?_⟩
  · obtain ⟨id, hid, hcontains⟩ := hsome
    rw [← hr.isSome_column?, hr.column?_eq, Option.isSome_iff_exists] at hcontains
    obtain ⟨c, hc⟩ := hcontains
    have hkeep := hfind id hid
    rw [hc, Option.map_some] at hkeep
    rw [← hr'.size_answers _ (List.mem_of_find?_eq_some hkeep), Column.keep, List.size_toArray,
      List.length_map, hr.size_answers c (List.mem_of_find?_eq_some hc), staying]
  · rw [← hr'.isSome_column?, ← hr.isSome_column?, hr'.column?_eq, hr.column?_eq, hfind id hid,
      Option.isSome_map]
  · rw [answer, answer, hfind id hid]
    cases hc : r.columns.toList.find? (·.id == id) with
    | none => rfl
    | some c =>
      rw [staying, ← hr.size_answers c (List.mem_of_find?_eq_some hc)] at hk
      exact answer_keep hk

end Responses

end SurveyTables
