import SurveyTables.Proofs.Answer.Order
import SurveyTables.Proofs.Catalog
import SurveyTables.Tabulation.GroupKeys

/-!
# The classes of a group

* `GroupKeys.Numbers`: the classes stand for the keys of the answers, each once, with the answers of
  the first respondent of the class, and every respondent is marked with the own class;
* `Numbers.note`, **`numbers_ofAnswers`**: one more respondent keeps this, so it holds of all;
* **`entries_ofAnswers_congr`**: the classes do not change with those who are left out;
* `Numbers.mark?_eq_some_iff`: the class of a respondent is that of the key of the answers;
* `IsFirst`, **`Numbers.exists_isFirst`**: a class has the answers of its first respondent;
* **`Numbers.ascending`**: the classes are in the strict order of the answers of their first
  respondents.
-/

namespace SurveyTables.Tabulation

/-- The classes of a group in relation to what the respondents answered, where `none` is left out. -/
structure GroupKeys.Numbers (g : Group) (answers : List (Option (List Answer))) (k : GroupKeys) :
    Prop where
  index : k.entries.Valid
  /-- A respondent is marked with the place of the key of the answers. -/
  marks_eq : k.marks.toList =
    answers.map fun a => a.bind fun as => k.entries.position? (groupKey g as)
  /-- There is a class for every key that comes up. -/
  noted : ∀ as, some as ∈ answers → groupKey g as ∈ k.entries.keys
  /-- A class has the answers of the first respondent with its key. -/
  first : ∀ e ∈ k.entries.toList,
    (answers.filterMap id).find? (groupKey g · == e.key) = some e.answers

namespace GroupKeys

theorem numbers_empty (g : Group) : Numbers g [] {} where
  index := Catalog.valid_empty
  marks_eq := rfl
  noted := by simp
  first := by simp [Catalog.empty, Catalog.toList]

variable {g : Group} {answers : List (Option (List Answer))} {k : GroupKeys}

theorem Numbers.note_none (h : Numbers g answers k) :
    Numbers g (answers ++ [none]) (note g k none) where
  index := h.index
  marks_eq := by
    unfold note
    rw [Array.toList_push, h.marks_eq, List.map_append]
    rfl
  noted as has := h.noted as (by simpa using has)
  first e he := by simpa using h.first e he

theorem entries_note_some (g : Group) (k : GroupKeys) (as : List Answer) :
    (note g k (some as)).entries = k.entries.add { key := groupKey g as, answers := as } :=
  rfl

theorem marks_note_some (g : Group) (k : GroupKeys) (as : List Answer) :
    (note g k (some as)).marks.toList =
      k.marks.toList ++ [some ((k.entries.position? (groupKey g as)).getD k.entries.size)] :=
  Array.toList_push

theorem Numbers.position?_add (h : Numbers g answers k) {as : List Answer} (has : some as ∈ answers)
    (e : KeyEntry) :
    (k.entries.add e).position? (groupKey g as) = k.entries.position? (groupKey g as) := by
  have hmem := h.noted as has
  rw [← h.index.contains_iff, Catalog.contains_eq, Option.isSome_iff_exists] at hmem
  obtain ⟨i, hi⟩ := hmem
  rw [Catalog.position?_add, hi, Option.some_or]

theorem Numbers.find?_eq_none (h : Numbers g answers k) {key : String}
    (hnew : ¬ k.entries.contains key = true) :
    (answers.filterMap id).find? (groupKey g · == key) = none := by
  rw [List.find?_eq_none]
  intro as has
  obtain ⟨_, has, rfl⟩ := List.mem_filterMap.mp has
  rw [beq_iff_eq]
  rintro rfl
  exact hnew (h.index.contains_iff.mpr (h.noted as has))

theorem Numbers.note_some (h : Numbers g answers k) (as : List Answer) :
    Numbers g (answers ++ [some as]) (note g k (some as)) where
  index := h.index.add _
  marks_eq := by
    have hold : (answers.map fun a => a.bind fun bs =>
        (k.entries.add { key := groupKey g as, answers := as }).position? (groupKey g bs)) =
        answers.map fun a => a.bind fun bs => k.entries.position? (groupKey g bs) := by
      refine List.map_congr_left fun a ha => Option.bind_congr fun bs hbs => ?_
      exact h.position?_add (hbs ▸ ha) _
    rw [marks_note_some, entries_note_some, List.map_append, List.map_singleton, Option.bind_some,
      hold, ← h.marks_eq, Catalog.position?_add, if_pos rfl]
    cases k.entries.position? (groupKey g as) <;> rfl
  noted bs hbs := by
    rw [entries_note_some, Catalog.keys_add]
    rw [List.mem_append, List.mem_singleton, Option.some_inj] at hbs
    rcases hbs with hbs | rfl
    · split
      · exact h.noted bs hbs
      · exact List.mem_append_left _ (h.noted bs hbs)
    · split
      · next hc => exact h.index.contains_iff.mp hc
      · exact List.mem_append_right _ (List.mem_singleton_self _)
  first e he := by
    rw [entries_note_some, Catalog.toList_add] at he
    rw [List.filterMap_append, List.find?_append]
    split at he
    · rw [h.first e he, Option.some_or]
    · next hnew =>
      rw [List.mem_append, List.mem_singleton] at he
      rcases he with he | rfl
      · rw [h.first e he, Option.some_or]
      · rw [h.find?_eq_none hnew]
        simp

theorem Numbers.note (h : Numbers g answers k) (a : Option (List Answer)) :
    Numbers g (answers ++ [a]) (note g k a) := by
  cases a with
  | none => exact h.note_none
  | some as => exact h.note_some as

theorem Numbers.foldl_note (h : Numbers g answers k) (more : List (Option (List Answer))) :
    Numbers g (answers ++ more) (more.foldl (GroupKeys.note g) k) := by
  induction more generalizing answers k with
  | nil => rwa [List.append_nil]
  | cons a more ih =>
    have := ih (h.note a)
    rwa [List.append_assoc, List.singleton_append] at this

/-- **The classes of a group stand for the keys of the answers**, whatever the respondents answered. -/
theorem numbers_ofAnswers (g : Group) (answers : List (Option (List Answer))) :
    Numbers g answers (ofAnswers g answers) :=
  (numbers_empty g).foldl_note answers

theorem entries_foldl_note (g : Group) (answers : List (Option (List Answer))) (k : GroupKeys) :
    (answers.foldl (GroupKeys.note g) k).entries =
      (answers.filterMap id).foldl (fun c as => c.add { key := groupKey g as, answers := as })
        k.entries := by
  induction answers generalizing k with
  | nil => rfl
  | cons a answers ih =>
    rw [List.foldl_cons, ih]
    cases a <;> rfl

/-- **Classes hang on nothing but the answers of those who are not left out.** -/
theorem entries_ofAnswers_congr (g : Group) {answers more : List (Option (List Answer))}
    (h : answers.filterMap id = more.filterMap id) :
    (ofAnswers g answers).entries = (ofAnswers g more).entries := by
  rw [ofAnswers, ofAnswers, entries_foldl_note, entries_foldl_note, h]

theorem sorted_perm (k : GroupKeys) : k.sorted.Perm k.entries.toList.zipIdx :=
  List.mergeSort_perm _ _

theorem mem_sorted {e : KeyEntry} {i : Nat} :
    (e, i) ∈ k.sorted ↔ k.entries.toList[i]? = some e := by
  rw [k.sorted_perm.mem_iff, List.mem_zipIdx_iff_getElem?]

namespace Numbers

variable (h : Numbers g answers k)
include h

theorem mark?_eq (respondent : Nat) : k.mark? respondent =
    (answers[respondent]?.join).bind fun as => k.entries.position? (groupKey g as) := by
  rw [mark?, ← Array.getElem?_toList, h.marks_eq, List.getElem?_map]
  cases answers[respondent]? <;> rfl

theorem mark?_eq_some_iff {respondent i : Nat} : k.mark? respondent = some i ↔
    ∃ as, answers[respondent]? = some (some as) ∧ k.entries.keys[i]? = some (groupKey g as) := by
  rw [h.mark?_eq, Option.bind_eq_some_iff]
  simp only [Option.join_eq_some_iff, h.index _ i]

theorem key_eq {e : KeyEntry} (he : e ∈ k.entries.toList) : e.key = groupKey g e.answers := by
  have := List.find?_some (h.first e he)
  exact (beq_iff_eq.mp this).symm

theorem nodup_keys : (k.sorted.map fun entry => entry.1.key).Nodup := by
  have hperm := k.sorted_perm.map fun entry => entry.1.key
  have hkeys : (k.entries.toList.zipIdx.map fun entry => entry.1.key) = k.entries.keys := by
    have hfst := List.zipIdx_map_fst 0 k.entries.toList
    rw [Catalog.keys, ← hfst, List.map_map, hfst]
    rfl
  rw [hperm.nodup_iff, hkeys]
  exact h.index.nodup

end Numbers

/-! ## The first respondent of a class -/

/-- The first respondent of a class. -/
structure IsFirst (k : GroupKeys) (a respondent : Nat) : Prop where
  mark?_eq : k.mark? respondent = some a
  earlier : ∀ n < respondent, k.mark? n ≠ some a

/-- **A class has the answers of its first respondent.** -/
theorem Numbers.exists_isFirst (h : Numbers g answers k) {e : KeyEntry} {a : Nat}
    (he : k.entries.toList[a]? = some e) :
    ∃ n, k.IsFirst a n ∧ answers[n]? = some (some e.answers) := by
  have hkey : k.entries.keys[a]? = some e.key := by
    rw [Catalog.keys, List.getElem?_map, he, Option.map_some]
  have hfirst := h.first e (List.mem_of_getElem? he)
  rw [List.find?_filterMap, Option.bind_eq_some_iff] at hfirst
  obtain ⟨o, hfind, rfl⟩ := hfirst
  obtain ⟨hsome, n, hn, hget, hearlier⟩ := List.find?_eq_some_iff_getElem.mp hfind
  have hat : answers[n]? = some (some e.answers) := List.getElem?_eq_some_iff.mpr ⟨hn, hget⟩
  refine ⟨n, ⟨?_, fun m hm hmark => ?_⟩, hat⟩
  · rw [h.mark?_eq_some_iff]
    exact ⟨e.answers, hat, by rw [hkey, h.key_eq (List.mem_of_getElem? he)]⟩
  · -- an earlier respondent of the class would have been found first
    obtain ⟨bs, hbs, hkey'⟩ := h.mark?_eq_some_iff.mp hmark
    obtain ⟨hm', hget'⟩ := List.getElem?_eq_some_iff.mp hbs
    have hne := hearlier m hm
    rw [hkey, Option.some_inj] at hkey'
    simp [hget', hkey'] at hne

theorem Numbers.exists_mark? (h : Numbers g answers k) {a : Nat} (ha : a < k.entries.size) :
    ∃ n, k.mark? n = some a := by
  have hlt : a < k.entries.toList.length := ha
  obtain ⟨n, hn, -⟩ := h.exists_isFirst (List.getElem?_eq_getElem hlt)
  exact ⟨n, hn.mark?_eq⟩

/-! ## The order of the classes -/

instance : Std.TransCmp KeyEntry.order :=
  have : Std.TransCmp fun a b : KeyEntry => Answer.orderAll a.answers b.answers :=
    { eq_swap := Std.OrientedCmp.eq_swap, isLE_trans := Std.TransCmp.isLE_trans }
  inferInstanceAs (Std.TransCmp (compareLex
    (fun a b : KeyEntry => Answer.orderAll a.answers b.answers) (compareOn KeyEntry.key)))

instance : Std.TransCmp fun a b : KeyEntry × Nat => a.1.order b.1 where
  eq_swap := Std.OrientedCmp.eq_swap
  isLE_trans := Std.TransCmp.isLE_trans

theorem pairwise_sorted (k : GroupKeys) :
    k.sorted.Pairwise fun a b => (a.1.order b.1).isLE = true :=
  pairwise_mergeSort_cmp (fun a b : KeyEntry × Nat => a.1.order b.1) _

/-- **The classes of a group are in the strict order of their answers**: two of them with the same
answers would have the same key. -/
theorem Numbers.ascending (h : Numbers g answers k) :
    k.sorted.Pairwise fun a b => Answer.orderAll a.1.answers b.1.answers = .lt := by
  have hne := List.pairwise_map.mp (List.nodup_iff_pairwise_ne.mp h.nodup_keys)
  refine ((pairwise_sorted k).and hne).imp_of_mem fun {a b} ha hb hab => ?_
  have hkey : ∀ e : KeyEntry × Nat, e ∈ k.sorted → e.1.key = groupKey g e.1.answers :=
    fun e he => h.key_eq (List.mem_of_getElem? (mem_sorted.mp he))
  obtain ⟨hle, hne⟩ := hab
  rw [KeyEntry.order] at hle
  cases ho : Answer.orderAll a.1.answers b.1.answers with
  | lt => rfl
  | eq =>
    have heq := Std.LawfulEqCmp.eq_of_compare ho
    rw [hkey a ha, hkey b hb, heq] at hne
    exact absurd rfl hne
  | gt =>
    rw [ho] at hle
    contradiction

end GroupKeys

end SurveyTables.Tabulation
