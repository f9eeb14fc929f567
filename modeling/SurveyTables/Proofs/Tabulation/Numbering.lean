import SurveyTables.Proofs.Tabulation.InternedKeys

/-!
# The numbering of classes

The classes of a group are numbered as they come up among the respondents, from zero on and without
gaps.

* `GroupKeys.said`, `GroupKeys.ofColumns`: answers in some columns, and the classes by these answers;
* `GroupKeys.InOrder`: a class comes up later than those with smaller numbers;
* `Numbers.inOrder_note`, **`Numbers.inOrder_foldl_note`**: one more respondent keeps the classes in
  order, so they are in order after all of them;
* `isSome_mark?_ofColumns_iff`, `entry_ofColumns`: who is in a class, and in which;
* `GroupKeys.IsNumbering`, `numbering_ofColumns`: what the marks, the classes and their index say;
* `GroupKeys.IsInterned`, `IsNumbering.interned`: what the four containers say that hold the classes;
* **`isNumbering_ofColumns`**: both, for any columns and weights.
-/

namespace SurveyTables.Tabulation.GroupKeys

variable {α : Type} {g : Group} {answers : List (Option (List Answer))} {k : GroupKeys}

/-- What the respondent said in the columns. -/
def said (columns : List Column) (respondent : Nat) : List Answer :=
  columns.map (·.answer respondent)

/-- What the respondents said who have a weight and an answer in every column. -/
def countingAnswers (columns : List Column) (weights : List (Option α)) :
    List (Option (List Answer)) :=
  weights.mapIdx fun respondent w => w.bind fun _ => answersOf? columns respondent

/-- The classes of a group among the respondents who have a weight, by their answers in the columns. -/
def ofColumns (g : Group) (columns : List Column) (weights : List (Option α)) : GroupKeys :=
  ofAnswers g (countingAnswers columns weights)

/-- The keys of a group among the respondents who have a weight, in four containers. -/
def internedOfColumns (g : Group) (columns : List Column) (weights : List (Option α)) : InternedKeys :=
  .ofAnswers g (countingAnswers columns weights)

/-- Before a class comes up, all classes with smaller numbers have. -/
def InOrder (k : GroupKeys) : Prop :=
  ∀ n a, k.mark? n = some a → ∀ b < a, ∃ m < n, k.mark? m = some b

/-- The classes of a group, numbered as they come up among respondents who have the weights and gave the
answers in the columns. -/
structure IsNumbering (g : Group) (columns : List Column) (weights : List (Option α)) (k : GroupKeys) :
    Prop where
  size_marks : k.marks.size = weights.length
  /-- A respondent is in a class just if there is a weight and an answer in every column. -/
  isSome_mark?_iff : ∀ n, (k.mark? n).isSome = true ↔
    (∃ w, weights[n]? = some (some w)) ∧ ∀ a ∈ said columns n, a.isMissing = false
  nodup_keys : k.entries.keys.Nodup
  /-- The index leads from each key to its place, and from no other text. -/
  position?_iff : ∀ key a, k.entries.position? key = some a ↔ k.entries.keys[a]? = some key
  /-- The class of a respondent has the key of the own answers, and the answers of its first
  respondent. -/
  entry : ∀ n a, k.mark? n = some a → ∃ first, k.IsFirst a first ∧
    k.entries.toList[a]? = some { key := groupKey g (said columns n), answers := said columns first }
  /-- Every class comes up. -/
  exists_mark? : ∀ a < k.entries.size, ∃ n, k.mark? n = some a
  inOrder : k.InOrder
  /-- The classes in order have every number once, each its own. -/
  sorted_perm : (k.sorted.map Prod.snd).Perm (List.range k.entries.size)
  sorted_entry : ∀ e a, (e, a) ∈ k.sorted → k.entries.toList[a]? = some e

/-- The keys of a group in four containers, with the answers in the columns of the respondents who have the
weights. -/
structure IsInterned (g : Group) (columns : List Column) (weights : List (Option α))
    (c : InternedKeys) : Prop where
  size_respondentKeys : c.respondentKeys.size = weights.length
  /-- A respondent has a key just if there is a weight and an answer in every column. -/
  isSome_keyOf?_iff : ∀ n, (c.keyOf? n).isSome = true ↔
    (∃ w, weights[n]? = some (some w)) ∧ ∀ a ∈ said columns n, a.isMissing = false
  size_values : c.values.size = c.keys.size
  nodup_keys : c.keys.toList.Nodup
  /-- The map leads from each key to its number, and from no other text. -/
  ids_eq_some_iff : ∀ (key : String) (id : UInt32), c.ids[key]? = some id ↔ c.keys[id.toNat]? = some key
  /-- The key of a respondent is that of the own answers, and its values are the answers of the first
  respondent with the key. -/
  entry : ∀ n (id : UInt32), c.keyOf? n = some id → c.keys[id.toNat]? = some (groupKey g (said columns n)) ∧
    ∃ first, c.keyOf? first = some id ∧ (∀ m < first, c.keyOf? m ≠ some id) ∧
      c.values[id.toNat]? = some (said columns first)
  /-- Every number comes up, and before it all smaller numbers. -/
  exists_keyOf? : ∀ id : UInt32, id.toNat < c.keys.size → ∃ n, c.keyOf? n = some id
  inOrder : ∀ n (id : UInt32), c.keyOf? n = some id → ∀ id' < id, ∃ m < n, c.keyOf? m = some id'
  sortedIds_perm : (c.sortedIds.map UInt32.toNat).Perm (List.range c.keys.size)

/-! ## One more respondent -/

theorem lt_size_of_mark? {n a : Nat} (h : k.mark? n = some a) : n < k.marks.size := by
  rw [mark?, Option.join_eq_some_iff] at h
  exact (Array.getElem?_eq_some_iff.mp h).1

theorem mark?_note (k : GroupKeys) (answer : Option (List Answer)) (n : Nat) :
    (note g k answer).mark? n = if n = k.marks.size
      then answer.map fun as => (k.entries.position? (groupKey g as)).getD k.entries.size
      else k.mark? n := by
  cases answer with
  | none =>
    simp only [note, mark?, Array.getElem?_push]
    split <;> rfl
  | some as =>
    simp only [note, mark?, Array.getElem?_push]
    split <;> rfl

theorem mark?_note_of_mark? {n a : Nat} (h : k.mark? n = some a) (answer : Option (List Answer)) :
    (note g k answer).mark? n = some a := by
  have hlt := lt_size_of_mark? h
  rw [mark?_note, if_neg (by omega), h]

theorem Numbers.place_le_size (h : Numbers g answers k) (as : List Answer) :
    (k.entries.position? (groupKey g as)).getD k.entries.size ≤ k.entries.size := by
  cases hp : k.entries.position? (groupKey g as) with
  | none => exact Nat.le_refl _
  | some i =>
    have hlt := (List.getElem?_eq_some_iff.mp ((h.index _ i).mp hp)).1
    rw [Catalog.length_keys] at hlt
    exact hlt.le

theorem Numbers.inOrder_note (h : Numbers g answers k) (hk : k.InOrder)
    (answer : Option (List Answer)) : (GroupKeys.note g k answer).InOrder := by
  intro n a hn b hb
  rw [mark?_note] at hn
  split at hn
  · next hsize =>
    -- the class is an old one or the next, so all before it have come up with some respondent
    obtain ⟨as, -, rfl⟩ := Option.map_eq_some_iff.mp hn
    obtain ⟨m, hm⟩ := h.exists_mark? (hb.trans_le (h.place_le_size as))
    exact ⟨m, hsize ▸ lt_size_of_mark? hm, mark?_note_of_mark? hm answer⟩
  · obtain ⟨m, hmn, hm⟩ := hk n a hn b hb
    exact ⟨m, hmn, mark?_note_of_mark? hm answer⟩

/-- **Classes stay in order**, whatever more respondents answered. -/
theorem Numbers.inOrder_foldl_note (h : Numbers g answers k) (hk : k.InOrder)
    (more : List (Option (List Answer))) : (more.foldl (GroupKeys.note g) k).InOrder := by
  induction more generalizing answers k with
  | nil => exact hk
  | cons answer more ih => exact ih (h.note answer) (h.inOrder_note hk answer)

theorem inOrder_ofAnswers (g : Group) (answers : List (Option (List Answer))) :
    (ofAnswers g answers).InOrder :=
  (numbers_empty g).inOrder_foldl_note (fun _ _ h => nomatch h) answers

/-! ## The classes by the answers in columns -/

theorem answersOf?_eq_some_iff {columns : List Column} {n : Nat} {as : List Answer} :
    answersOf? columns n = some as ↔
      (∀ a ∈ said columns n, a.isMissing = false) ∧ said columns n = as := by
  unfold answersOf? said
  simp only [Option.ite_none_left_eq_some, Option.some_inj, Bool.not_eq_true, List.any_eq_false]

section Columns

variable {columns : List Column} {weights : List (Option α)}

theorem getElem?_countingAnswers {n : Nat} {as : List Answer} :
    (countingAnswers columns weights)[n]? = some (some as) ↔ (∃ w, weights[n]? = some (some w)) ∧
      (∀ a ∈ said columns n, a.isMissing = false) ∧ said columns n = as := by
  rw [countingAnswers, List.getElem?_mapIdx, ← answersOf?_eq_some_iff]
  rcases weights[n]? with _ | _ | w <;> simp

theorem numbers_ofColumns (g : Group) (columns : List Column) (weights : List (Option α)) :
    Numbers g (countingAnswers columns weights) (ofColumns g columns weights) :=
  numbers_ofAnswers g _

theorem size_marks_ofColumns : (ofColumns g columns weights).marks.size = weights.length := by
  rw [← Array.length_toList, (numbers_ofColumns g columns weights).marks_eq, List.length_map,
    countingAnswers, List.length_mapIdx]

/-- **A respondent is in a class just if there is a weight and an answer in every column.** -/
theorem isSome_mark?_ofColumns_iff {n : Nat} : ((ofColumns g columns weights).mark? n).isSome = true ↔
    (∃ w, weights[n]? = some (some w)) ∧ ∀ a ∈ said columns n, a.isMissing = false := by
  have h := numbers_ofColumns g columns weights
  rw [Option.isSome_iff_exists]
  simp only [h.mark?_eq_some_iff, getElem?_countingAnswers]
  constructor
  · rintro ⟨_, _, ⟨hweight, hanswered, -⟩, -⟩
    exact ⟨hweight, hanswered⟩
  · rintro ⟨hweight, hanswered⟩
    have hsaid := getElem?_countingAnswers.mpr ⟨hweight, hanswered, rfl⟩
    obtain ⟨a, ha⟩ := List.mem_iff_getElem?.mp (h.noted _ (List.mem_of_getElem? hsaid))
    exact ⟨a, _, ⟨hweight, hanswered, rfl⟩, ha⟩

/-- **The class of a respondent** has the key of the own answers and the answers of its first
respondent. -/
theorem entry_ofColumns {n a : Nat} (hmark : (ofColumns g columns weights).mark? n = some a) :
    ∃ first, (ofColumns g columns weights).IsFirst a first ∧
      (ofColumns g columns weights).entries.toList[a]? =
        some { key := groupKey g (said columns n), answers := said columns first } := by
  have h := numbers_ofColumns g columns weights
  obtain ⟨_, hsaid, hkey⟩ := h.mark?_eq_some_iff.mp hmark
  obtain ⟨-, -, rfl⟩ := getElem?_countingAnswers.mp hsaid
  rw [Catalog.keys, List.getElem?_map, Option.map_eq_some_iff] at hkey
  obtain ⟨e, he, hkey⟩ := hkey
  obtain ⟨first, hfirst, hanswers⟩ := h.exists_isFirst he
  obtain ⟨-, -, hanswers⟩ := getElem?_countingAnswers.mp hanswers
  exact ⟨first, hfirst, by rw [he, ← hkey, hanswers]⟩

end Columns

theorem map_snd_sorted_perm (k : GroupKeys) :
    (k.sorted.map Prod.snd).Perm (List.range k.entries.size) := by
  have hperm := k.sorted_perm.map Prod.snd
  rwa [List.zipIdx_map_snd, ← List.range_eq_range'] at hperm

theorem numbering_ofColumns (g : Group) (columns : List Column) (weights : List (Option α)) :
    IsNumbering g columns weights (ofColumns g columns weights) := by
  have h := numbers_ofColumns g columns weights
  constructor
  case size_marks => exact size_marks_ofColumns
  case isSome_mark?_iff => exact fun n => isSome_mark?_ofColumns_iff
  case nodup_keys => exact h.index.nodup
  case position?_iff => exact h.index
  case entry => exact fun n a hmark => entry_ofColumns hmark
  case exists_mark? => exact fun a ha => h.exists_mark? ha
  case inOrder => exact inOrder_ofAnswers g _
  case sorted_perm => exact map_snd_sorted_perm _
  case sorted_entry => exact fun e a => mem_sorted.mp

/-! ## The classes in four containers -/

section Interned

variable {columns : List Column} {weights : List (Option α)} {c : InternedKeys}

theorem IsNumbering.lt_size (hk : IsNumbering g columns weights k) {n a : Nat}
    (hmark : k.mark? n = some a) : a < k.entries.size := by
  obtain ⟨_, _, hentry⟩ := hk.entry n a hmark
  exact (List.getElem?_eq_some_iff.mp hentry).1

/-- **Containers that hold classes say the same as these**, as long as 32 bits are enough. -/
theorem IsNumbering.interned (hk : IsNumbering g columns weights k) (hc : c.Holds k)
    (hsize : c.keys.size < UInt32.size) : IsInterned g columns weights c := by
  have hkey : ∀ n (id : UInt32), c.keyOf? n = some id ↔ k.mark? n = some id.toNat := fun n id => by
    rw [hc.keyOf?_eq, hc.map_ofNat_eq_some_iff hsize fun a ha => hk.lt_size ha]
  have hkeys : ∀ a, c.keys[a]? = k.entries.keys[a]? := fun a => by
    rw [← hc.keys_eq, Array.getElem?_toList]
  have hvalues : ∀ a, c.values[a]? = k.entries.toList[a]?.map KeyEntry.answers := fun a => by
    rw [← List.getElem?_map, ← hc.values_eq, Array.getElem?_toList]
  have hplace : ∀ key a, k.entries.position? key = some a → a < k.entries.size := fun key a ha => by
    rw [← Catalog.length_keys]
    exact (List.getElem?_eq_some_iff.mp ((hk.position?_iff key a).mp ha)).1
  constructor
  case size_respondentKeys =>
    rw [← hk.size_marks, ← Array.length_toList, hc.respondentKeys_eq, List.length_map,
      Array.length_toList]
  case isSome_keyOf?_iff =>
    intro n
    rw [hc.keyOf?_eq, Option.isSome_map]
    exact hk.isSome_mark?_iff n
  case size_values => exact hc.size_values
  case nodup_keys =>
    rw [hc.keys_eq]
    exact hk.nodup_keys
  case ids_eq_some_iff =>
    intro key id
    rw [hc.ids_eq, hc.map_ofNat_eq_some_iff hsize (hplace key), hkeys]
    exact hk.position?_iff key id.toNat
  case entry =>
    intro n id hn
    obtain ⟨first, hfirst, hentry⟩ := hk.entry n id.toNat ((hkey n id).mp hn)
    refine ⟨?_, first, (hkey first id).mpr hfirst.mark?_eq, fun m hm hmark => ?_, ?_⟩
    · rw [hkeys, Catalog.keys, List.getElem?_map, hentry, Option.map_some]
    · exact hfirst.earlier m hm ((hkey m id).mp hmark)
    · rw [hvalues, hentry, Option.map_some]
  case exists_keyOf? =>
    intro id hid
    rw [hc.size_keys] at hid
    obtain ⟨n, hn⟩ := hk.exists_mark? id.toNat hid
    exact ⟨n, (hkey n id).mpr hn⟩
  case inOrder =>
    intro n id hn id' hlt
    obtain ⟨m, hm, hmark⟩ := hk.inOrder n id.toNat ((hkey n id).mp hn) id'.toNat hlt
    exact ⟨m, hm, (hkey m id').mpr hmark⟩
  case sortedIds_perm =>
    have hnumbers : (k.sorted.map Prod.snd).map (fun a => (UInt32.ofNat a).toNat) =
        k.sorted.map Prod.snd := by
      refine (List.map_congr_left fun a ha => ?_).trans (List.map_id _)
      exact hc.toNat_ofNat hsize (List.mem_range.mp (hk.sorted_perm.mem_iff.mp ha))
    rw [hc.sortedIds_eq hsize, hc.size_keys, List.map_map]
    rw [List.map_map] at hnumbers
    exact hnumbers ▸ hk.sorted_perm

end Interned

/-- **The classes of a group are numbered as they come up**, whatever the columns and weights are, and the
four containers in which they are kept say the same, as long as 32 bits are enough. -/
theorem isNumbering_ofColumns (g : Group) (weights : List (Option α)) :
    (∀ columns, IsNumbering g columns weights (ofColumns g columns weights)) ∧
    (∀ r, build r weights g = ofColumns g (r.columnsOf g) weights) ∧
    ∀ columns, (internedOfColumns g columns weights).Holds (ofColumns g columns weights) ∧
      ((internedOfColumns g columns weights).keys.size < UInt32.size →
        IsInterned g columns weights (internedOfColumns g columns weights)) := by
  refine ⟨fun columns => numbering_ofColumns g columns weights, fun r => rfl, fun columns => ?_⟩
  have hholds := InternedKeys.holds_ofAnswers g (countingAnswers columns weights)
  exact ⟨hholds, (numbering_ofColumns g columns weights).interned hholds⟩

/-- One column with answers of six respondents, of whom the second said nothing. -/
def petColumns : List Column :=
  [{ id := "pet", answers := #[.text "dog", .missing, .text "cat", .text "dog", .text "cow", .text "cow"] }]

/-- The fifth respondent has no weight. -/
def petWeights : List (Option Nat) :=
  [some 1, some 1, some 2, some 1, none, some 3]

/-- The numbers of three keys fit into 32 bits. -/
theorem isNumbering_ofColumns_pet :
    (internedOfColumns ["pet"] petColumns petWeights).keys.size < UInt32.size ∧
    IsInterned ["pet"] petColumns petWeights (internedOfColumns ["pet"] petColumns petWeights) := by
  have hsize : (internedOfColumns ["pet"] petColumns petWeights).keys.size < UInt32.size := by
    cbv
  obtain ⟨-, -, hinterned⟩ := isNumbering_ofColumns ["pet"] petWeights
  exact ⟨hsize, (hinterned petColumns).2 hsize⟩

example : (ofColumns ["pet"] petColumns petWeights).marks =
    #[some 0, none, some 1, some 0, none, some 2] := by
  cbv

end SurveyTables.Tabulation.GroupKeys
