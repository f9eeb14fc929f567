import SurveyTables.Proofs.Responses.Valid
import SurveyTables.Proofs.Tabulation.GroupKeys
import SurveyTables.Proofs.Tabulation.Request
import SurveyTables.Proofs.Table.KeyRoundTrip

/-!
# Respondents one by one

What a table counts, said of each respondent alone and without keys, classes or tallies.

* `Responses.answered`, `Responses.includes`, `Responses.weightIn`: who is included, with what weight;
* `Responses.shows`: a respondent has answered all variables of a group, with the given texts;
* `weights_eq`: the weights that the tabulation works with are those of the included respondents;
* `classes`, `build_eq_classes`: the classes of a group are those of the included respondents;
* **`mark?_classes`**: a respondent is in a class just if included and showing the texts of the class;
* **`firstAnswers_eq`**, **`exists_class_iff`**: a class has the answers of the first respondent who
  shows its texts, and there is one for just the texts that are shown.
-/

namespace SurveyTables

namespace Responses

/-- The respondent has answered the variable. -/
def answered (r : Responses) (id : String) (respondent : Nat) : Bool :=
  !(r.answer id respondent).isMissing

/-- The respondent has answered all variables of the group. -/
def answersAll (r : Responses) (g : Group) (respondent : Nat) : Bool :=
  g.all fun id => r.answered id respondent

/-- The answers to the variables of the group. -/
def answers (r : Responses) (g : Group) (respondent : Nat) : List Answer :=
  g.map fun id => r.answer id respondent

/-- The answers to the variables of the group, in words. -/
def texts (r : Responses) (g : Group) (respondent : Nat) : List String :=
  g.map fun id => (r.answer id respondent).display

/-- The respondent has answered all variables of the group, with these texts. -/
def shows (r : Responses) (g : Group) (texts : List String) (respondent : Nat) : Bool :=
  r.answersAll g respondent && r.texts g respondent == texts

/-- The weight of the respondent, if there is one: what the weight variable says, or 1 without a
weight variable. -/
def weightIn? (r : Responses) (o : Options) (respondent : Nat) : Option Float :=
  match o.weight with
  | some id => (r.answer id respondent).weight?
  | none => some 1.0

/-- The respondent is included: a variable of the rows is answered, and there is a weight. -/
def includes (r : Responses) (d : Design) (o : Options) (respondent : Nat) : Bool :=
  (d.rows.any fun g => g.any fun id => r.answered id respondent) &&
    (r.weightIn? o respondent).isSome

/-- The weight of an included respondent. -/
def weightIn (r : Responses) (o : Options) (respondent : Nat) : Float :=
  (r.weightIn? o respondent).getD 0.0

/-- The answers of the first included respondent who shows the texts. -/
def firstAnswers (r : Responses) (included : Nat → Bool) (g : Group) (texts : List String) :
    List Answer :=
  match (List.range r.respondents).find? fun k => included k && r.shows g texts k with
  | some k => r.answers g k
  | none => []

theorem texts_eq (r : Responses) (g : Group) (k : Nat) :
    r.texts g k = (r.answers g k).map Answer.display := by
  simp [texts, answers, Function.comp_def]

theorem shows_iff {r : Responses} {g : Group} {texts : List String} {k : Nat} :
    r.shows g texts k = true ↔ r.answersAll g k = true ∧ r.texts g k = texts := by
  rw [shows, Bool.and_eq_true, beq_iff_eq]

end Responses

namespace Tabulation

open Responses

/-- The weights of the included among the first `n` respondents. -/
def weightsOf {α : Type} (n : Nat) (included : Nat → Bool) (weight : Nat → α) : List (Option α) :=
  (List.range n).map fun k => if included k then some (weight k) else none

variable {r : Responses} {d : Design} {o : Options}

/-! ## Inclusion -/

theorem any_columnsOf (hr : r.Valid) (ids : List String) (k : Nat) :
    ((r.columnsOf ids).any fun c => !(c.answer k).isMissing) = ids.any (r.answered · k) := by
  induction ids with
  | nil => rfl
  | cons id ids ih =>
    unfold columnsOf at ih ⊢
    rw [List.any_cons, ← ih]
    cases hc : r.column? id with
    | none =>
      have hid : r.contains id = false := by rw [← hr.isSome_column?, hc]; rfl
      rw [List.filterMap_cons_none hc, answered, hr.answer_of_not_contains hid]
      rfl
    | some c =>
      rw [List.filterMap_cons_some hc, List.any_cons, answered, hr.answer_of_column? hc]

theorem hasAnswered_rows (hr : r.Valid) (d : Design) (k : Nat) :
    hasAnswered (r.columnsOf d.rowVariableIds) k =
      d.rows.any fun g => g.any fun id => r.answered id k := by
  rw [hasAnswered, any_columnsOf hr, Bool.eq_iff_iff]
  simp only [Design.rowVariableIds, List.any_eq_true, List.mem_eraseDups, List.mem_flatten]
  constructor
  · rintro ⟨id, ⟨g, hg, hid⟩, h⟩
    exact ⟨g, hg, id, hid, h⟩
  · rintro ⟨g, hg, id, hid, h⟩
    exact ⟨id, ⟨g, hg, hid⟩, h⟩

theorem weightOf?_eq (hr : r.Valid) (h : Accepted r d o) (rows : List Column) (k : Nat) :
    weightOf? rows (o.weight.bind r.column?) k =
      if hasAnswered rows k then r.weightIn? o k else none := by
  unfold weightOf? weightIn?
  cases hw : o.weight with
  | none => rfl
  | some id =>
    obtain ⟨c, hc⟩ := hr.exists_column? (h.weight id hw)
    rw [Option.bind_some, hc]
    simp only [hr.answer_of_column? hc]

/-- **The weights of a table are those of the included respondents.** -/
theorem weights_eq (hr : r.Valid) (h : Accepted r d o) :
    weights r d o = weightsOf r.respondents (r.includes d o) (r.weightIn o) := by
  unfold weights weightsOf
  apply List.map_congr_left
  intro k _
  rw [weightOf?_eq hr h, hasAnswered_rows hr, includes, weightIn]
  by_cases hrows : (d.rows.any fun g => g.any fun id => r.answered id k) = true
  · rw [if_pos hrows, hrows, Bool.true_and]
    cases r.weightIn? o k <;> rfl
  · rw [if_neg hrows, if_neg]
    simp [hrows]

/-! ## The classes of a group -/

theorem answersOf?_columnsOf (hr : r.Valid) {g : Group} (hg : ∀ id ∈ g, r.contains id = true)
    (k : Nat) :
    answersOf? (r.columnsOf g) k = if r.answersAll g k then some (r.answers g k) else none := by
  unfold answersOf?
  rw [hr.map_answer_columnsOf hg]
  have hany : ((g.map fun id => r.answer id k).any Answer.isMissing) = !r.answersAll g k := by
    rw [answersAll, List.any_map, List.not_all_eq_any_not]
    simp [answered, Function.comp_def]
  simp only [hany, answers]
  cases r.answersAll g k <;> rfl

/-- What the included respondents said who have answered all variables of the group. -/
def classAnswers (r : Responses) (included : Nat → Bool) (g : Group) :
    List (Option (List Answer)) :=
  (List.range r.respondents).map fun k =>
    if included k && r.answersAll g k then some (r.answers g k) else none

/-- The classes of a group among the included respondents. -/
def classes (r : Responses) (included : Nat → Bool) (g : Group) : GroupKeys :=
  GroupKeys.ofAnswers g (classAnswers r included g)

theorem build_eq_classes {α : Type} (included : Nat → Bool) (weight : Nat → α) (hr : r.Valid)
    {g : Group} (hg : ∀ id ∈ g, r.contains id = true) :
    GroupKeys.build r (weightsOf r.respondents included weight) g = classes r included g := by
  unfold GroupKeys.build classes
  apply congrArg (GroupKeys.ofAnswers g)
  apply List.ext_getElem?
  intro k
  rw [List.getElem?_mapIdx, weightsOf, classAnswers, List.getElem?_map, List.getElem?_map]
  by_cases hk : k < r.respondents
  · rw [List.getElem?_range hk, Option.map_some, Option.map_some, Option.map_some,
      answersOf?_columnsOf hr hg]
    cases included k <;> rfl
  · rw [List.getElem?_eq_none (by simpa using hk)]
    rfl

section Classes

variable {included : Nat → Bool} {g : Group}

theorem getElem?_classAnswers {k : Nat} {as : List Answer} :
    (classAnswers r included g)[k]? = some (some as) ↔
      k < r.respondents ∧ included k = true ∧ r.answersAll g k = true ∧ r.answers g k = as := by
  unfold classAnswers
  rw [List.getElem?_map]
  by_cases hk : k < r.respondents
  · rw [List.getElem?_range hk, Option.map_some, Option.some_inj, Option.ite_none_right_eq_some,
      Option.some_inj, Bool.and_eq_true, and_assoc]
    simp only [hk, true_and]
  · rw [List.getElem?_eq_none (by simpa using hk)]
    simp [hk]

theorem numbers_classes (r : Responses) (included : Nat → Bool) (g : Group) :
    GroupKeys.Numbers g (classAnswers r included g) (classes r included g) :=
  GroupKeys.numbers_ofAnswers g _

theorem answersAll_of_mark? {k a : Nat} (h : (classes r included g).mark? k = some a) :
    r.answersAll g k = true := by
  obtain ⟨as, has, -⟩ := (numbers_classes r included g).mark?_eq_some_iff.mp h
  exact (getElem?_classAnswers.mp has).2.2.1

theorem groupPath_eq_iff {as bs : List Answer} (ha : as.length = g.length)
    (hb : bs.length = g.length) :
    groupPath g as = groupPath g bs ↔ as.map Answer.display = bs.map Answer.display := by
  unfold groupPath
  constructor
  · intro h
    have hsnd := congrArg (List.map Prod.snd) h
    rwa [List.map_snd_zip (by simp [ha]), List.map_snd_zip (by simp [hb])] at hsnd
  · intro h
    rw [h]

theorem groupKey_eq_iff {as bs : List Answer} (ha : as.length = g.length) (hb : bs.length = g.length) :
    groupKey g as = groupKey g bs ↔ as.map Answer.display = bs.map Answer.display :=
  Key.encode_injective.eq_iff.trans (groupPath_eq_iff ha hb)

theorem length_answers {k : Nat} : (r.answers g k).length = g.length := by
  rw [answers, List.length_map]

variable {entry : KeyEntry × Nat} (he : entry ∈ (classes r included g).sorted)
include he

theorem exists_answers : ∃ k < r.respondents, included k = true ∧ r.answersAll g k = true ∧
    r.answers g k = entry.1.answers := by
  obtain ⟨k, -, hk⟩ := (numbers_classes r included g).exists_isFirst (GroupKeys.mem_sorted.mp he)
  exact ⟨k, getElem?_classAnswers.mp hk⟩

theorem length_answers_of_mem_sorted : entry.1.answers.length = g.length := by
  obtain ⟨k, -, -, -, has⟩ := exists_answers he
  rw [← has, length_answers]

/-- **A respondent is in a class just if included and showing the texts of the class.** -/
theorem mark?_classes (k : Nat) : (classes r included g).mark? k = some entry.2 ↔
    k < r.respondents ∧ included k = true ∧
      r.shows g (entry.1.answers.map Answer.display) k = true := by
  have hnumbers := numbers_classes r included g
  have hat := GroupKeys.mem_sorted.mp he
  have hlength := length_answers_of_mem_sorted he
  have hkey : (classes r included g).entries.keys[entry.2]? = some (groupKey g entry.1.answers) := by
    rw [Catalog.keys, List.getElem?_map, hat, Option.map_some,
      hnumbers.key_eq (List.mem_of_getElem? hat)]
  rw [hnumbers.mark?_eq_some_iff, hkey, shows_iff, texts_eq]
  simp only [getElem?_classAnswers, Option.some_inj]
  constructor
  · rintro ⟨_, ⟨hk, hi, ha, rfl⟩, h⟩
    rw [groupKey_eq_iff hlength length_answers] at h
    exact ⟨hk, hi, ha, h.symm⟩
  · rintro ⟨hk, hi, ha, h⟩
    refine ⟨_, ⟨hk, hi, ha, rfl⟩, ?_⟩
    rw [groupKey_eq_iff hlength length_answers, h]

/-- **A class has the answers of the first included respondent who shows its texts.** -/
theorem firstAnswers_eq :
    r.firstAnswers included g (entry.1.answers.map Answer.display) = entry.1.answers := by
  obtain ⟨k, hfirst, hk⟩ :=
    (numbers_classes r included g).exists_isFirst (GroupKeys.mem_sorted.mp he)
  obtain ⟨hlt, hincluded, hall, has⟩ := getElem?_classAnswers.mp hk
  have hfind : (List.range r.respondents).find? (fun n =>
      included n && r.shows g (entry.1.answers.map Answer.display) n) = some k := by
    rw [List.find?_range_eq_some, Bool.and_eq_true, shows_iff, texts_eq, has]
    refine ⟨⟨hincluded, hall, rfl⟩, List.mem_range.mpr hlt, fun n hn => ?_⟩
    -- an earlier respondent who shows the texts would be of the class
    have hearlier := hfirst.earlier n hn
    rw [ne_eq, mark?_classes he] at hearlier
    rw [Bool.not_eq_true', ← Bool.not_eq_true, Bool.and_eq_true]
    exact fun h => hearlier ⟨hn.trans hlt, h⟩
  unfold firstAnswers
  rw [hfind]
  exact has

omit he in
/-- **There is a class for just the texts that an included respondent shows.** -/
theorem exists_class_iff {ts : List String} :
    (∃ entry ∈ (classes r included g).sorted, entry.1.answers.map Answer.display = ts) ↔
      ∃ k < r.respondents, included k = true ∧ r.shows g ts k = true := by
  have hnumbers := numbers_classes r included g
  constructor
  · rintro ⟨entry, he, rfl⟩
    obtain ⟨k, hk, hi, ha, has⟩ := exists_answers he
    exact ⟨k, hk, hi, shows_iff.mpr ⟨ha, by rw [texts_eq, has]⟩⟩
  · rintro ⟨k, hk, hi, hs⟩
    obtain ⟨ha, rfl⟩ := shows_iff.mp hs
    have hnoted := hnumbers.noted _
      (List.mem_of_getElem? (getElem?_classAnswers.mpr ⟨hk, hi, ha, rfl⟩))
    rw [Catalog.keys, List.mem_map] at hnoted
    obtain ⟨e, he, hkey⟩ := hnoted
    obtain ⟨a, hat⟩ := List.mem_iff_getElem?.mp he
    have hsorted := GroupKeys.mem_sorted.mpr hat
    refine ⟨(e, a), hsorted, ?_⟩
    rw [hnumbers.key_eq he,
      groupKey_eq_iff (length_answers_of_mem_sorted hsorted) length_answers] at hkey
    rw [texts_eq, hkey]

end Classes

end Tabulation

end SurveyTables
