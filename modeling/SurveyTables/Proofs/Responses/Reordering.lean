import SurveyTables.Proofs.Responses.Selection

/-!
# The respondents in another order

* `Column.reorder`, `Responses.reordered`: the columns with the respondents in another order, the same
  in all columns;
* `Reorders`: the responses hold what the same respondents said, who come in another order;
* **`Valid.reorders`**: the responses of the reordered columns do;
* `Reorders.exists_iff`, `Reorders.perm_map_filter`: what is said of some respondent, and what is listed
  of those of a kind, is the same up to the order.
-/

namespace SurveyTables

/-- The column with the answers of the respondents in the order of the list. -/
def Column.reorder (c : Column) (order : List Nat) : Column :=
  { c with answers := (order.map c.answer).toArray }

namespace Responses

/-- The columns with the respondents in the order of the list. -/
def reordered (r : Responses) (order : List Nat) : List Column :=
  r.columns.toList.map (·.reorder order)

/-- The responses `r'` hold what the respondents of `r` said, who come in the order of the list. -/
structure Reorders (r r' : Responses) (order : List Nat) : Prop where
  perm : order.Perm (List.range r.respondents)
  respondents : r'.respondents = order.length
  contains : ∀ id, r'.contains id = r.contains id
  answer : ∀ id k k', order[k']? = some k → r'.answer id k' = r.answer id k

variable {r r' : Responses} {order : List Nat}

/-! ## Responses of the reordered columns -/

theorem Valid.exists_responses_of_reordered (hr : r.Valid) (order : List Nat) :
    ∃ r', ofColumns (r.reordered order) = .ok r' ∧ r'.Reachable ∧
      r'.columns.toList = r.reordered order := by
  apply exists_responses_of_columns order.length
  · intro c hc
    obtain ⟨c, -, rfl⟩ := List.mem_map.mp hc
    rw [Column.reorder, List.size_toArray, List.length_map]
  · intro c hc
    obtain ⟨c, hmem, rfl⟩ := List.mem_map.mp hc
    exact hr.id_ne_empty c hmem
  · rw [reordered, List.map_map]
    exact hr.index.nodup

theorem answer_reorder {c : Column} {k k' : Nat} (h : order[k']? = some k) :
    (c.reorder order).answer k' = c.answer k := by
  rw [Column.answer, Column.reorder, List.getElem?_toArray, List.getElem?_map, h]
  rfl

/-- **The responses of the reordered columns hold what the same respondents said.** -/
theorem Valid.reorders (hr : r.Valid) (hr' : r'.Valid) (h : r'.columns.toList = r.reordered order)
    (hperm : order.Perm (List.range r.respondents)) (hsome : r.columns.toList ≠ []) :
    Reorders r r' order := by
  have hfind : ∀ id, r'.columns.toList.find? (·.id == id) =
      (r.columns.toList.find? (·.id == id)).map (·.reorder order) := by
    intro id
    rw [h, reordered, List.find?_map]
    rfl
  refine ⟨hperm, ?_, fun id => ?_, fun id k k' hk => ?_⟩
  · obtain ⟨c, hc⟩ := List.exists_mem_of_ne_nil _ hsome
    have hmem : c.reorder order ∈ r'.columns.toList := by
      rw [h]
      exact List.mem_map_of_mem hc
    rw [← hr'.size_answers _ hmem, Column.reorder, List.size_toArray, List.length_map]
  · rw [← hr'.isSome_column?, ← hr.isSome_column?, hr'.column?_eq, hr.column?_eq, hfind,
      Option.isSome_map]
  · rw [answer, answer, hfind]
    cases r.columns.toList.find? (·.id == id) with
    | none => rfl
    | some c => exact answer_reorder hk

/-! ## Respondents in another order -/

namespace Reorders

variable (h : Reorders r r' order)
include h

theorem lt_of_getElem? {k k' : Nat} (hk : order[k']? = some k) :
    k < r.respondents ∧ k' < r'.respondents := by
  refine ⟨List.mem_range.mp (h.perm.mem_iff.mp (List.mem_of_getElem? hk)), ?_⟩
  rw [h.respondents]
  exact (List.getElem?_eq_some_iff.mp hk).1

theorem exists_getElem? {k' : Nat} (hk' : k' < r'.respondents) : ∃ k, order[k']? = some k := by
  rw [h.respondents] at hk'
  exact ⟨_, List.getElem?_eq_getElem hk'⟩

theorem exists_place {k : Nat} (hk : k < r.respondents) : ∃ k' : Nat, order[k']? = some k :=
  List.mem_iff_getElem?.mp (h.perm.mem_iff.mpr (List.mem_range.mpr hk))

theorem exists_iff {p p' : Nat → Prop} (hp : ∀ k k', order[k']? = some k → (p' k' ↔ p k)) :
    (∃ k' < r'.respondents, p' k') ↔ ∃ k < r.respondents, p k := by
  constructor
  · rintro ⟨k', hk', h'⟩
    obtain ⟨k, hk⟩ := h.exists_getElem? hk'
    exact ⟨k, (h.lt_of_getElem? hk).1, (hp k k' hk).mp h'⟩
  · rintro ⟨k, hk, h'⟩
    obtain ⟨k', hk'⟩ := h.exists_place hk
    exact ⟨k', (h.lt_of_getElem? hk').2, (hp k k' hk').mpr h'⟩

theorem perm_map_filter {α : Type} {p p' : Nat → Bool} {f f' : Nat → α}
    (hp : ∀ k k', order[k']? = some k → p' k' = p k)
    (hf : ∀ k k', order[k']? = some k → f' k' = f k) :
    (((List.range r'.respondents).filter p').map f').Perm
      (((List.range r.respondents).filter p).map f) := by
  have hmap : ((List.range r'.respondents).map fun k => if p' k then some (f' k) else none) =
      order.map fun k => if p k then some (f k) else none := by
    rw [h.respondents]
    apply map_range_length
    intro k k' hk
    rw [hp k k' hk, hf k k' hk]
  have hlisted := (h.perm.map fun k => if p k then some (f k) else none).filterMap id
  rw [← hmap, List.filterMap_map, List.filterMap_map] at hlisted
  rw [map_filter_eq_filterMap, map_filter_eq_filterMap]
  exact hlisted

end Reorders

end Responses

end SurveyTables
