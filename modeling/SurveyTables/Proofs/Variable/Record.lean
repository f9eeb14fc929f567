import SurveyTables.Proofs.Variable.Labels
import SurveyTables.Variable.Record

/-!
# Variables of records

* `exists_of_bind_eq_ok`: a computation that succeeds has succeeded in its first part;
* `Variable.exists_read_of_record`, `Variable.exists_record_of_mem_records`: where variables come from;
* **`Variable.valid_values_of_records`**: the variables of records have value labels that are indexed;
* `Variable.HasIds`, **`Variable.hasIds_of_records`**: they and their children have ids.
-/

namespace SurveyTables

theorem exists_of_bind_eq_ok {ε α β : Type} {x : Except ε α} {f : α → Except ε β} {b : β}
    (h : x >>= f = .ok b) : ∃ a, x = .ok a ∧ f a = .ok b := by
  cases x with
  | error e => exact nomatch h
  | ok a => exact ⟨a, rfl, h⟩

theorem exists_of_map_eq_ok {ε α β : Type} {x : Except ε α} {f : α → β} {b : β}
    (h : f <$> x = .ok b) : ∃ a, x = .ok a ∧ f a = b := by
  cases x with
  | error e => exact nomatch h
  | ok a => exact ⟨a, rfl, Except.ok.inj h⟩

theorem RecordValues.valid_of_check {id : String} {values : RecordValues} {l : Labels}
    (h : values.check id = .ok l) : l.Valid := by
  cases values with
  | pairs items =>
    obtain ⟨pairs, -, rfl⟩ := exists_of_map_eq_ok h
    exact Labels.valid_ofPairs pairs
  | fields items =>
    obtain ⟨pairs, -, rfl⟩ := exists_of_map_eq_ok h
    exact Labels.valid_ofPairs pairs

theorem Record.id_values_of_check {r : Record} {v : Variable} (h : r.check = .ok v) :
    v.id ≠ "" ∧ v.values.Valid := by
  unfold Record.check at h
  by_cases hid : (Text.trimmed r.id).isEmpty = true
  · simp only [hid, if_true] at h
    split at h <;> exact nomatch h
  · have hne : Text.trimmed r.id ≠ "" := mt String.isEmpty_iff.mpr hid
    simp only [if_neg hid] at h
    split at h
    · obtain ⟨l, hl, h⟩ := exists_of_bind_eq_ok h
      obtain rfl := Except.ok.inj h
      exact ⟨hne, RecordValues.valid_of_check hl⟩
    · obtain rfl := Except.ok.inj h
      exact ⟨hne, Catalog.valid_empty⟩

theorem Record.id_values_of_read {d : Document} {v : Variable} (h : Record.read d = .ok v) :
    v.id ≠ "" ∧ v.values.Valid := by
  unfold Record.read at h
  split at h
  · exact id_values_of_check h
  · exact nomatch h

/-! ## The variable of a record -/

namespace Variable

theorem exists_records_of_childrenOfRecord {fields : List (String × Document)} {vs : List Variable}
    (h : childrenOfRecord fields = .ok vs) : ∃ ds, ofRecords ds = .ok vs := by
  induction fields with
  | nil => exact ⟨[], h⟩
  | cons field fields ih =>
    rw [childrenOfRecord.eq_def] at h
    split at h
    · next heq => exact nomatch heq
    · next name items rest heq =>
      obtain ⟨-, rfl⟩ := List.cons.inj heq
      split at h
      · exact ⟨items, h⟩
      · exact ih h
    · next heq =>
      obtain ⟨-, rfl⟩ := List.cons.inj heq
      exact ih h

theorem exists_read_of_record {d : Document} {v : Variable} (h : ofRecord d = .ok v) :
    ∃ w ds, Record.read d = .ok w ∧ ofRecords ds = .ok v.children ∧
      v = { w with children := v.children } := by
  cases d with
  | object fields =>
    rw [ofRecord] at h
    obtain ⟨w, hw, h⟩ := exists_of_bind_eq_ok h
    obtain ⟨children, hchildren, h⟩ := exists_of_bind_eq_ok h
    obtain rfl := Except.ok.inj h
    obtain ⟨ds, hds⟩ := exists_records_of_childrenOfRecord hchildren
    exact ⟨w, ds, hw, hds, rfl⟩
  | list items =>
    rw [ofRecord] at h
    obtain ⟨w, hw, h⟩ := exists_of_bind_eq_ok h
    split at h
    · obtain ⟨children, hchildren, h⟩ := exists_of_bind_eq_ok h
      obtain rfl := Except.ok.inj h
      exact ⟨w, _, hw, hchildren, rfl⟩
    · obtain rfl := Except.ok.inj h
      exact ⟨w, [], hw, rfl, rfl⟩
  | _ => exact nomatch h

theorem exists_record_of_mem_records {ds : List Document} {vs : List Variable}
    (h : ofRecords ds = .ok vs) : ∀ v ∈ vs, ∃ d ∈ ds, ofRecord d = .ok v := by
  induction ds generalizing vs with
  | nil =>
    obtain rfl := Except.ok.inj h
    simp
  | cons d ds ih =>
    rw [ofRecords] at h
    obtain ⟨w, hw, h⟩ := exists_of_bind_eq_ok h
    obtain ⟨ws, hws, h⟩ := exists_of_bind_eq_ok h
    obtain rfl := Except.ok.inj h
    intro v hv
    rcases List.mem_cons.mp hv with rfl | hv
    · exact ⟨d, List.mem_cons_self, hw⟩
    · obtain ⟨d', hd', h⟩ := ih hws v hv
      exact ⟨d', List.mem_cons_of_mem _ hd', h⟩

theorem id_values_of_record {d : Document} {v : Variable} (h : ofRecord d = .ok v) :
    v.id ≠ "" ∧ v.values.Valid := by
  obtain ⟨w, -, hw, -, heq⟩ := exists_read_of_record h
  have hread := Record.id_values_of_read hw
  rw [heq]
  exact hread

/-- **The value labels of recorded variables are indexed.** -/
theorem valid_values_of_records {ds : List Document} {vs : List Variable} (h : ofRecords ds = .ok vs) :
    ∀ v ∈ vs, v.values.Valid := by
  intro v hv
  obtain ⟨d, -, hd⟩ := exists_record_of_mem_records h v hv
  exact (id_values_of_record hd).2

/-- The variable and its children have ids. -/
structure HasIds (v : Variable) : Prop where
  id_ne_empty : v.id ≠ ""
  child_id_ne_empty : ∀ c ∈ v.children, c.id ≠ ""

/-- **Recorded variables and their children have ids.** -/
theorem hasIds_of_records {ds : List Document} {vs : List Variable} (h : ofRecords ds = .ok vs) :
    ∀ v ∈ vs, v.HasIds := by
  intro v hv
  obtain ⟨d, -, hd⟩ := exists_record_of_mem_records h v hv
  refine ⟨(id_values_of_record hd).1, fun c hc => ?_⟩
  obtain ⟨-, ds, -, hchildren, -⟩ := exists_read_of_record hd
  obtain ⟨d', -, hd'⟩ := exists_record_of_mem_records hchildren c hc
  exact (id_values_of_record hd').1

end Variable

end SurveyTables
